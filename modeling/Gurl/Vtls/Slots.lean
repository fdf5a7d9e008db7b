import Gurl.Lib.Runs
import Gurl.Vtls.Scache

/-! What the operations of the session cache do to its slots: each changes one slot at most. -/

namespace Gurl.Vtls

open Gurl.Strcase

theorem modify_eq_set {α : Type*} {l : List α} {i : Nat} {x : α} (h : l[i]? = some x) (f : α → α) :
    l.modify i f = l.set i (f x) := by
  ext1 j
  by_cases hij : i = j
  · subst hij
    obtain ⟨hlt, rfl⟩ := List.getElem?_eq_some_iff.mp h
    simp [hlt]
  · simp [hij]

/-- The client certificate of a configuration. -/
def certOf (config : Option ConnConfig) : Text := config.bind fun c => c.primary.clientcert

/-- The key's password of a configuration. -/
def passwdOf (config : Option ConnConfig) : Text := config.bind fun c => c.primary.keyPasswd

theorem matchAuth_iff (peer : ScachePeer) (config : Option ConnConfig) :
    matchAuth peer config = true ↔
      peer.clientcert = certOf config ∧ peer.keyPasswd = passwdOf config := by
  cases config with
  | none => simp [matchAuth, certOf, passwdOf]
  | some c => simp [matchAuth, certOf, passwdOf, safecmp_iff, timestrcmp_iff]

theorem peerMatches_iff (key : Text) (config : Option ConnConfig) (peer : ScachePeer) :
    peerMatches key config peer = true ↔
      ∃ k k', key = some k ∧ peer.sslPeerKey = some k' ∧ upper k = upper k' ∧
        peer.clientcert = certOf config ∧ peer.keyPasswd = passwdOf config := by
  unfold peerMatches
  rw [Bool.and_eq_true, Bool.and_eq_true, matchAuth_iff, strequalText_iff, SameIgnoringCase]
  cases key <;> cases peer.sslPeerKey <;> simp

theorem findPeerByKey_some {scache : Scache} {key : Text} {config : Option ConnConfig} {i : Nat}
    (h : findPeerByKey scache key config = some i) :
    ∃ peer, scache.peers[i]? = some peer ∧ peerMatches key config peer = true ∧
      ∀ j peer', j < i → scache.peers[j]? = some peer' → peerMatches key config peer' = false := by
  obtain ⟨hi, hm, hbefore⟩ := List.findIdx?_eq_some_iff_getElem.mp h
  refine ⟨scache.peers[i], by simp [hi], hm, fun j peer' hj hget => ?_⟩
  obtain ⟨hjlt, rfl⟩ := List.getElem?_eq_some_iff.mp hget
  simpa using hbefore j hj

theorem findPeerByKey_none {scache : Scache} {key : Text} {config : Option ConnConfig}
    (h : findPeerByKey scache key config = none) {i : Nat} {peer : ScachePeer}
    (hi : scache.peers[i]? = some peer) : peerMatches key config peer = false :=
  List.findIdx?_eq_none_iff.mp h peer (List.mem_of_getElem? hi)

/-- The first slot that matches is found. -/
theorem findPeerByKey_eq {scache : Scache} {key : Text} {config : Option ConnConfig} {i : Nat}
    {peer : ScachePeer} (hi : scache.peers[i]? = some peer)
    (hm : peerMatches key config peer = true)
    (hbefore : ∀ j peer', j < i → scache.peers[j]? = some peer' →
      peerMatches key config peer' = false) : findPeerByKey scache key config = some i := by
  obtain ⟨hlt, rfl⟩ := List.getElem?_eq_some_iff.mp hi
  refine List.findIdx?_eq_some_iff_getElem.mpr ⟨hlt, hm, fun j hj => ?_⟩
  simpa using hbefore j scache.peers[j] hj (by simp [Nat.lt_trans hj hlt])

theorem rememberOldest_spec (oldest : Option (Nat × Int)) (i : Nat) (age : Int)
    (hold : ∀ x, oldest = some x → x.1 < i) :
    ∃ x, rememberOldest oldest i age = some x ∧ x.1 < i + 1 := by
  cases oldest with
  | none => exact ⟨(i, age), rfl, Nat.lt_succ_self i⟩
  | some y =>
    have hy := hold y rfl
    simp only [rememberOldest]
    split
    · exact ⟨_, rfl, Nat.lt_succ_self i⟩
    · exact ⟨_, rfl, Nat.lt_succ_of_lt hy⟩

theorem getFreePeerLoop_spec (peers : List ScachePeer) (i : Nat) (oldest : Option (Nat × Int))
    (hold : ∀ x, oldest = some x → x.1 < i) (hne : peers ≠ [] ∨ oldest ≠ none) :
    ∃ j, getFreePeerLoop peers i oldest = some j ∧ j < i + peers.length := by
  induction peers generalizing i oldest with
  | nil =>
    obtain ⟨x, hx⟩ := Option.ne_none_iff_exists'.mp (hne.resolve_left (fun h => h rfl))
    exact ⟨x.1, by simp [getFreePeerLoop, hx], by simpa using hold x hx⟩
  | cons peer rest ih =>
    unfold getFreePeerLoop
    split
    · exact ⟨i, rfl, by simp⟩
    · split
      · exact ⟨i, rfl, by simp⟩
      · obtain ⟨x, hx, hxi⟩ := rememberOldest_spec oldest i peer.age hold
        obtain ⟨j, hj, hlt⟩ := ih (i + 1) (some x) (fun y hy => by cases hy; exact hxi) (by simp)
        rw [hx]
        exact ⟨j, hj, by rw [List.length_cons]; omega⟩

/-- The cache with `peer` in slot `i`. -/
def Scache.setPeer (scache : Scache) (i : Nat) (peer : ScachePeer) : Scache :=
  { scache with peers := scache.peers.set i peer }

/-- A cache with slots always finds one to clear. -/
theorem getFreePeer_spec {scache : Scache} (h : 0 < scache.peers.length) :
    ∃ i peer, scache.peers[i]? = some peer ∧
      getFreePeer scache = (some i, scache.setPeer i (clearPeer peer)) := by
  obtain ⟨i, hi, hlt⟩ := getFreePeerLoop_spec scache.peers 0 none (by simp)
    (.inl (List.ne_nil_of_length_pos h))
  have hlt : i < scache.peers.length := by omega
  refine ⟨i, scache.peers[i], by simp [hlt], ?_⟩
  unfold getFreePeer
  rw [hi]
  simp only
  rw [modify_eq_set (x := scache.peers[i]) (by simp [hlt])]
  rfl

/-- The slot that `cf_ssl_add_peer` makes of `peer`. -/
def freshPeer (peer : ScachePeer) (key : Bytes) (config : Option ConnConfig) : ScachePeer :=
  { clearPeer peer with
    sslPeerKey := some key, clientcert := slotCert config, keyPasswd := passwdOf config }

/-- A session goes into the slot found for its key, or else into a slot made for it. -/
theorem addSession_some {scache : Scache} (hne : 0 < scache.peers.length) (key : Bytes)
    (config : Option ConnConfig) (s : Session) (now : Nat)
    (hexp : sessionExpired (limitLifetime scache s now) now = false) :
    ∃ i peer, scache.peers[i]? = some peer ∧
      ((findPeerByKey scache (some key) config = some i ∧
        addSession scache (some key) config s now = (.ok, scache.setPeer i
          (peerAddSession peer (limitLifetime scache s now) now))) ∨
       (findPeerByKey scache (some key) config = none ∧
        addSession scache (some key) config s now = (.ok, scache.setPeer i
          (peerAddSession (freshPeer peer key config) (limitLifetime scache s now) now)))) := by
  unfold addSession
  rw [if_neg (by omega)]
  simp only [hexp, Bool.false_eq_true, if_false, addPeer, Option.isSome_some, if_true]
  cases hf : findPeerByKey scache (some key) config with
  | some i =>
    obtain ⟨peer, hi, -, -⟩ := findPeerByKey_some hf
    refine ⟨i, peer, hi, .inl ⟨rfl, ?_⟩⟩
    simp only
    rw [modify_eq_set hi]
    rfl
  | none =>
    obtain ⟨i, peer, hi, hfree⟩ := getFreePeer_spec hne
    have hlt : i < scache.peers.length := (List.getElem?_eq_some_iff.mp hi).1
    refine ⟨i, peer, hi, .inr ⟨rfl, ?_⟩⟩
    simp only [hfree, Scache.setPeer, List.getElem?_set_self hlt, peerInit]
    rw [modify_eq_set (List.getElem?_set_self (by simpa using hlt))]
    simp only [List.set_set]
    rfl

/-- Without a key, a slot is cleared for nothing. -/
theorem addSession_none (scache : Scache) (config : Option ConnConfig) (s : Session) (now : Nat) :
    (addSession scache none config s now).2 = scache ∨
    ∃ i peer, scache.peers[i]? = some peer ∧
      (addSession scache none config s now).2 = scache.setPeer i (clearPeer peer) := by
  unfold addSession
  split
  · exact .inl rfl
  · rename_i hne
    simp only
    split
    · exact .inl rfl
    · obtain ⟨i, peer, hi, hfree⟩ := getFreePeer_spec (Nat.pos_of_ne_zero hne)
      have hlt : i < scache.peers.length := (List.getElem?_eq_some_iff.mp hi).1
      refine .inr ⟨i, peer, hi, ?_⟩
      simp only [addPeer, Option.isSome_none, Bool.false_eq_true, if_false, hfree, Scache.setPeer,
        List.getElem?_set_self hlt, peerInit, List.set_set]
      rfl

/-- What a call of `Curl_ssl_scache_take` does. -/
theorem sslScacheTake_cases (scache : Scache) (key : Text) (config : Option ConnConfig)
    (now : Nat) :
    sslScacheTake scache key config now = (none, scache) ∨
    ∃ i peer, scache.peers[i]? = some peer ∧ findPeerByKey scache key config = some i ∧
      (((peerRemoveExpired peer now).sessions = [] ∧ sslScacheTake scache key config now =
        (none, scache.setPeer i (peerRemoveExpired peer now))) ∨
       ∃ s rest, (peerRemoveExpired peer now).sessions = s :: rest ∧
        sslScacheTake scache key config now =
          (some s, { scache.setPeer i { peer with sessions := rest, age := scache.age + 1 } with
            age := scache.age + 1 })) := by
  unfold sslScacheTake
  cases hf : findPeerByKey scache key config with
  | none => exact .inl rfl
  | some i =>
    obtain ⟨peer, hi, -, -⟩ := findPeerByKey_some hf
    have hlt : i < scache.peers.length := (List.getElem?_eq_some_iff.mp hi).1
    refine .inr ⟨i, peer, hi, rfl, ?_⟩
    simp only [modify_eq_set hi, List.getElem?_set_self hlt, Option.bind_some]
    cases hs : (peerRemoveExpired peer now).sessions with
    | nil => exact .inl ⟨rfl, rfl⟩
    | cons s rest =>
      refine .inr ⟨s, rest, rfl, ?_⟩
      simp only [List.head?_cons]
      rw [modify_eq_set (List.getElem?_set_self hlt)]
      simp only [List.set_set, hs, List.tail_cons]
      rfl

end Gurl.Vtls
