import Gurl.Vtls.Sessions

/-! How the session cache behaves over whole runs, when client certificates are given by file. -/

namespace Gurl.Vtls

open Gurl.Strcase

/-- Two slots for one key and one configuration. -/
def SameSlot (p q : ScachePeer) : Prop :=
  ∃ k k', p.sslPeerKey = some k ∧ q.sslPeerKey = some k' ∧ upper k = upper k' ∧
    p.clientcert = q.clientcert ∧ p.keyPasswd = q.keyPasswd

theorem SameSlot.symm {p q : ScachePeer} : SameSlot p q → SameSlot q p := by
  rintro ⟨k, k', hk, hk', hup, hcert, hpass⟩
  exact ⟨k', k, hk', hk, hup.symm, hcert.symm, hpass.symm⟩

/-- A slot for each key and configuration at most. -/
def OneSlot (scache : Scache) : Prop :=
  ∀ (i j : Nat) (p q : ScachePeer), i ≠ j → scache.peers[i]? = some p →
    scache.peers[j]? = some q → ¬SameSlot p q

/-- A client certificate, if there is one, is given by file. -/
def ByFile (config : Option ConnConfig) : Prop :=
  ∀ c, config = some c → c.primary.clientcert ≠ none ∨ c.primary.certBlob = none

/-- The sessions put by a call have their client certificate by file. -/
def Call.ByFile : Call → Prop
  | .put _ _ config _ _ => Vtls.ByFile config
  | _ => True

/-- How the cache is to behave in a state of a run; `allowed` are the configurations that may be put
next. -/
structure Behaves (allowed : Option ConnConfig → Prop) (maxSessions : Nat) (st : Cached) :
    Prop where
  bounded : ∀ p ∈ st.cache.peers, p.sessions.length ≤ maxSessions
  uniform : ∀ p ∈ st.cache.peers, Uniform p.sessions
  oneSlot : OneSlot st.cache
  takenOnce : (st.taken.map (·.session.serial)).Nodup
  takenValid : ∀ t ∈ st.taken, (t.now : Int) ≤ t.session.validUntil
  returns : ∀ (key : Bytes) (config : Option ConnConfig) (ietfTlsId : Nat) (validUntil : Int)
    (now now' : Nat), allowed config → st.clock ≤ now → now ≤ now' →
    (∀ p ∈ st.cache.peers, peerMatches (some key) config p = true →
      ∀ s ∈ p.sessions, sessionExpired s now' = true) →
    sessionExpired (limitLifetime st.cache (st.newSession ietfTlsId validUntil) now) now' = false →
    (sslScacheTake (sslScachePut st.cache true (some key) config
      (st.newSession ietfTlsId validUntil) now).2 (some key) config now').1 =
      some (limitLifetime st.cache (st.newSession ietfTlsId validUntil) now)

theorem slotCert_of_byFile {config : Option ConnConfig} (h : ByFile config) :
    slotCert config = certOf config := by
  cases config with
  | none => rfl
  | some c =>
    unfold slotCert certOf
    rcases h c rfl with hc | hb
    · obtain ⟨cert, hc⟩ := Option.ne_none_iff_exists'.mp hc
      simp [hc]
    · cases hc : c.primary.clientcert <;> simp [hb, hc]

/-- Changing a slot keeps the slots apart, if the slot stays what it was, is cleared, or is for a
key and configuration that no slot is for. -/
theorem OneSlot.setPeer {scache : Scache} (h : OneSlot scache) {i : Nat} {peer peer' : ScachePeer}
    (hi : scache.peers[i]? = some peer)
    (hpeer : (peer'.sslPeerKey = peer.sslPeerKey ∧ peer'.clientcert = peer.clientcert ∧
        peer'.keyPasswd = peer.keyPasswd) ∨ peer'.sslPeerKey = none ∨
      ∀ (j : Nat) (q : ScachePeer), scache.peers[j]? = some q → ¬SameSlot peer' q) :
    OneSlot (scache.setPeer i peer') := by
  have hlt : i < scache.peers.length := (List.getElem?_eq_some_iff.mp hi).1
  have hother (j : Nat) (hj : i ≠ j) {q : ScachePeer} (hq : scache.peers[j]? = some q) :
      ¬SameSlot peer' q := by
    rcases hpeer with ⟨hkey, hcert, hpass⟩ | hnone | hnew
    · rintro ⟨k, k', hk, hk', hrest⟩
      exact h i j peer q hj hi hq ⟨k, k', hkey ▸ hk, hk', by rwa [← hcert, ← hpass]⟩
    · rintro ⟨k, k', hk, -⟩
      rw [hnone] at hk
      cases hk
    · exact hnew j q hq
  intro a b p q hab hp hq
  simp only [Scache.setPeer] at hp hq
  by_cases ha : i = a
  · subst ha
    rw [List.getElem?_set_self hlt] at hp
    rw [List.getElem?_set_ne hab] at hq
    cases hp
    exact hother b hab hq
  · rw [List.getElem?_set_ne ha] at hp
    by_cases hb : i = b
    · subst hb
      rw [List.getElem?_set_self hlt] at hq
      cases hq
      exact fun hsame => hother a ha hp hsame.symm
    · rw [List.getElem?_set_ne hb] at hq
      exact h a b p q hab hp hq

theorem peerAddSession_identity (peer : ScachePeer) (s : Session) (now : Nat) :
    (peerAddSession peer s now).sslPeerKey = peer.sslPeerKey ∧
    (peerAddSession peer s now).clientcert = peer.clientcert ∧
    (peerAddSession peer s now).keyPasswd = peer.keyPasswd := by
  unfold peerAddSession
  split <;> exact ⟨rfl, rfl, rfl⟩

theorem peerMatches_of_sameSlot {peer q : ScachePeer} (key : Bytes)
    (config : Option ConnConfig) (hkey : peer.sslPeerKey = some key)
    (hcert : peer.clientcert = certOf config) (hpass : peer.keyPasswd = passwdOf config)
    (h : SameSlot peer q) : peerMatches (some key) config q = true := by
  obtain ⟨k, k', hk, hk', hup, hc, hp⟩ := h
  rw [hkey] at hk
  cases hk
  exact (peerMatches_iff _ _ _).mpr ⟨key, k', rfl, hk', hup, hc ▸ hcert, hp ▸ hpass⟩

theorem OneSlot.addSession {scache : Scache} (h : OneSlot scache)
    (hne : 0 < scache.peers.length) {key : Text} {config : Option ConnConfig}
    (hfile : ByFile config) (s : Session) (now : Nat) :
    OneSlot (addSession scache key config s now).2 := by
  cases key with
  | none =>
    rcases addSession_none scache config s now with heq | ⟨i, peer, hi, heq⟩
    · rwa [heq]
    · rw [heq]
      exact h.setPeer hi (.inr (.inl rfl))
  | some key =>
    cases hexp : sessionExpired (limitLifetime scache s now) now with
    | true =>
      have heq : (Vtls.addSession scache (some key) config s now).2 = scache := by
        unfold Vtls.addSession
        split
        · rfl
        · simp [hexp]
      rwa [heq]
    | false =>
      obtain ⟨i, peer, hi, ⟨-, heq⟩ | ⟨hf, heq⟩⟩ := addSession_some hne key config s now hexp
      · rw [heq]
        exact h.setPeer hi (.inl (peerAddSession_identity _ _ _))
      · rw [heq]
        obtain ⟨hk, hc, hp⟩ := peerAddSession_identity (freshPeer peer key config)
          (limitLifetime scache s now) now
        refine h.setPeer hi (.inr (.inr fun j q hq hsame => ?_))
        have hm := peerMatches_of_sameSlot key config hk
          (hc.trans (slotCert_of_byFile hfile)) hp hsame
        rw [findPeerByKey_none hf hq] at hm
        cases hm

theorem OneSlot.take {scache : Scache} (h : OneSlot scache) (key : Text)
    (config : Option ConnConfig) (now : Nat) : OneSlot (sslScacheTake scache key config now).2 := by
  rcases sslScacheTake_cases scache key config now with heq | ⟨i, peer, hi, -, hcase⟩
  · rwa [heq]
  · rcases hcase with ⟨-, heq⟩ | ⟨s, rest, -, heq⟩
    · rw [heq]
      exact h.setPeer hi (.inl ⟨rfl, rfl, rfl⟩)
    · rw [heq]
      have hone : OneSlot
        (scache.setPeer i { peer with sessions := rest, age := scache.age + 1 }) :=
        h.setPeer hi (.inl ⟨rfl, rfl, rfl⟩)
      exact hone

theorem OneSlot.removeAll {scache : Scache} (h : OneSlot scache) (key : Text)
    (config : Option ConnConfig) : OneSlot (sslScacheRemoveAll scache key config) := by
  unfold sslScacheRemoveAll
  cases hf : findPeerByKey scache key config with
  | none => exact h
  | some i =>
    obtain ⟨peer, hi, -, -⟩ := findPeerByKey_some hf
    simp only [modify_eq_set hi]
    exact h.setPeer hi (.inr (.inl rfl))

theorem OneSlot.step {maxSessions : Nat} {st st' : Cached} (hinv : CacheInv maxSessions st)
    (h : OneSlot st.cache) {a : Nat × Call} (hfile : a.2.ByFile) (hstep : st.step a = some st') :
    OneSlot st'.cache := by
  obtain ⟨now, call⟩ := a
  replace hstep := (Option.ite_none_left_eq_some.mp hstep).2
  cases call with
  | put cacheSession key config ietfTlsId validUntil =>
    cases hstep
    cases cacheSession with
    | false => exact h
    | true => exact h.addSession hinv.nonempty hfile _ _
  | take key config =>
    cases hstep
    exact h.take key config now
  | removeAll key config =>
    cases hstep
    exact h.removeAll key config

theorem sessionExpired_mono {s : Session} {now now' : Nat} (hle : now ≤ now')
    (h : sessionExpired s now' = false) : sessionExpired s now = false := by
  simp only [sessionExpired, Bool.and_eq_false_iff, decide_eq_false_iff_not] at h ⊢
  omega

/-- Taking from the slot that is found. -/
theorem sslScacheTake_head {scache : Scache} {key : Text} {config : Option ConnConfig} {now i : Nat}
    {peer : ScachePeer} {s : Session} (rest : List Session)
    (hf : findPeerByKey scache key config = some i) (hi : scache.peers[i]? = some peer)
    (hs : (peerRemoveExpired peer now).sessions = s :: rest) :
    (sslScacheTake scache key config now).1 = some s := by
  rcases sslScacheTake_cases scache key config now with heq | ⟨j, peer', hj, hf', hcase⟩
  · unfold sslScacheTake at heq
    rw [hf] at heq
    simp only [modify_eq_set hi, List.getElem?_set_self (List.getElem?_eq_some_iff.mp hi).1,
      Option.bind_some, hs, List.head?_cons] at heq
    cases heq
  · obtain rfl : i = j := Option.some.inj (hf.symm.trans hf')
    obtain rfl : peer = peer' := Option.some.inj (hi.symm.trans hj)
    rcases hcase with ⟨hnil, -⟩ | ⟨s', rest', hs', heq⟩
    · rw [hnil] at hs
      cases hs
    · rw [hs] at hs'
      cases hs'
      rw [heq]

/-- A session just put into slot `i` of a cache comes back, if what was there has expired and no
slot before is for the key. -/
theorem take_of_setPeer {scache : Scache} {i : Nat} {peer old : ScachePeer} {key : Bytes}
    {config : Option ConnConfig} {s : Session} {now now' : Nat}
    (hi : scache.peers[i]? = some old) (hmax : 1 ≤ peer.maxSessions)
    (hm : peerMatches (some key) config peer = true)
    (hbefore : ∀ j q, j < i → scache.peers[j]? = some q → peerMatches (some key) config q = false)
    (hold : ∀ x ∈ peer.sessions, sessionExpired x now' = true)
    (hs : sessionExpired s now' = false) :
    (sslScacheTake (scache.setPeer i (peerAddSession peer s now)) (some key) config now').1 =
      some s := by
  have hlt : i < scache.peers.length := (List.getElem?_eq_some_iff.mp hi).1
  have hget : (scache.setPeer i (peerAddSession peer s now)).peers[i]? =
      some (peerAddSession peer s now) := List.getElem?_set_self hlt
  obtain ⟨hk, hc, hp⟩ := peerAddSession_identity peer s now
  have hm' : peerMatches (some key) config (peerAddSession peer s now) = true := by
    rw [peerMatches_iff] at hm ⊢
    rwa [hk, hc, hp]
  have hfind := findPeerByKey_eq hget hm' fun j q hj hq => by
    simp only [Scache.setPeer] at hq
    rw [List.getElem?_set_ne (by omega)] at hq
    exact hbefore j q hj hq
  obtain ⟨rest, heq, hsub, -, -⟩ := peerAddSession_spec peer s now hmax
  refine sslScacheTake_head [] hfind hget ?_
  rw [heq]
  simp only [peerRemoveExpired, List.filter_append, List.filter_cons, hs, Bool.not_false, if_true,
    List.filter_nil]
  rw [List.filter_eq_nil_iff.mpr fun x hx => by simp [hold x (hsub.subset hx)], List.nil_append]

theorem returns_of_inv {maxSessions : Nat} {st : Cached} (h : CacheInv maxSessions st)
    (hmax : 1 ≤ maxSessions) {key : Bytes} {config : Option ConnConfig} (hfile : ByFile config)
    {s : Session} {now now' : Nat} (hle : now ≤ now')
    (hold : ∀ p ∈ st.cache.peers, peerMatches (some key) config p = true →
      ∀ x ∈ p.sessions, sessionExpired x now' = true)
    (hs : sessionExpired (limitLifetime st.cache s now) now' = false) :
    (sslScacheTake (sslScachePut st.cache true (some key) config s now).2
      (some key) config now').1 =
      some (limitLifetime st.cache s now) := by
  unfold sslScachePut
  simp only [Bool.not_true, Bool.false_eq_true, if_false]
  obtain ⟨i, peer, hi, ⟨hf, heq⟩ | ⟨hf, heq⟩⟩ :=
    addSession_some h.nonempty key config s now (sessionExpired_mono hle hs)
  · obtain ⟨peer', hi', hm, hbefore⟩ := findPeerByKey_some hf
    obtain rfl : peer = peer' := Option.some.inj (hi.symm.trans hi')
    rw [heq]
    exact take_of_setPeer hi ((h.slots i peer hi).max ▸ hmax) hm hbefore
      (hold peer (List.mem_of_getElem? hi) hm) hs
  · rw [heq]
    have hm : peerMatches (some key) config (freshPeer peer key config) = true :=
      (peerMatches_iff _ _ _).mpr
        ⟨key, key, rfl, rfl, rfl, slotCert_of_byFile hfile, rfl⟩
    refine take_of_setPeer hi ?_ hm (fun j q _ hq => findPeerByKey_none hf hq) ?_ hs
    · exact (h.slots i peer hi).max ▸ hmax
    · simp [freshPeer, clearPeer]

/-- In every run in which client certificates are given by file, the cache behaves. -/
theorem scache_behaves {maxPeers maxSessions : Nat} (hpeers : 1 ≤ maxPeers)
    (hmax : 1 ≤ maxSessions) (calls : List (Nat × Call)) (hfile : ∀ a ∈ calls, a.2.ByFile)
    (st : Cached)
    (hrun : Runs.exec Cached.step (Cached.start maxPeers maxSessions) calls = some st) :
    Behaves ByFile maxSessions st := by
  have hstart : OneSlot (Cached.start maxPeers maxSessions).cache := by
    intro i j p q _ hp _ hsame
    obtain rfl := List.eq_of_mem_replicate (List.mem_of_getElem? hp)
    obtain ⟨k, _, hk, -⟩ := hsame
    cases hk
  obtain ⟨hinv, hone⟩ : CacheInv maxSessions st ∧ OneSlot st.cache :=
    Runs.exec_invariant (fun t => CacheInv maxSessions t ∧ OneSlot t.cache)
      (fun a => a.2.ByFile) hrun hfile ⟨CacheInv.start hpeers, hstart⟩
      fun ht ha hstep => ⟨ht.1.step hmax hstep, OneSlot.step ht.1 ht.2 ha hstep⟩
  refine ⟨?_, ?_, hone, hinv.takenOnce, hinv.takenValid, ?_⟩
  · intro p hp
    obtain ⟨i, hi⟩ := List.mem_iff_getElem?.mp hp
    exact (hinv.slots i p hi).bounded
  · intro p hp
    obtain ⟨i, hi⟩ := List.mem_iff_getElem?.mp hp
    exact (hinv.slots i p hi).uniform
  · intro key config ietfTlsId validUntil now now' hallowed _ hle hold hs
    exact returns_of_inv hinv hmax hallowed hle hold hs

/-- A configuration with the client certificate given by file. -/
def fileConfig : ConnConfig := ⟨{ clientcert := some [99] }, []⟩

/-- A configuration with the client certificate given as a blob. -/
def blobConfig : ConnConfig := ⟨{ certBlob := some [1] }, [48]⟩

/-- Three sessions are put for two keys and taken, and one more is asked for. -/
def fileCalls : List (Nat × Call) :=
  [(10, .put true (some [107]) (some fileConfig) 0x0304 0),
   (10, .put true (some [108]) (some fileConfig) 0x0304 0),
   (11, .put true (some [107]) (some fileConfig) 0x0304 0),
   (11, .take (some [107]) (some fileConfig)), (12, .take (some [107]) (some fileConfig)),
   (12, .take (some [108]) (some fileConfig)), (13, .take (some [107]) (some fileConfig))]

theorem scache_behaves_by_file :
    ∃ st, Runs.exec Cached.step (Cached.start 2 2) fileCalls = some st ∧
      st.taken.map (·.session.serial) = [0, 2, 1] ∧ Behaves ByFile 2 st := by
  have hfile : ∀ a ∈ fileCalls, a.2.ByFile := by simp [fileCalls, Call.ByFile, ByFile, fileConfig]
  exact ⟨_, rfl, by decide +kernel,
    scache_behaves (by decide : 1 ≤ 2) (by decide : 1 ≤ 2) fileCalls hfile _ rfl⟩

/-- A session put with a certificate given as a blob is not found again, and the next one for the
same key and configuration takes up another slot. -/
theorem scache_blob_misses :
    ∃ st, Runs.exec Cached.step (Cached.start 2 1)
        [(10, .put true (some [107]) (some blobConfig) 0x0304 0),
         (10, .put true (some [107]) (some blobConfig) 0x0304 0)] = some st ∧
      ¬Behaves (fun _ => True) 1 st ∧ ¬OneSlot st.cache ∧
      (sslScacheTake st.cache (some [107]) (some blobConfig) 10).1 = none := by
  refine ⟨_, rfl, fun h => ?_, fun h => ?_, by decide +kernel⟩
  · exact absurd (h.oneSlot 0 1 _ _ (by decide) rfl rfl)
      (fun h => h ⟨_, _, rfl, rfl, rfl, rfl, rfl⟩)
  · exact h 0 1 _ _ (by decide) rfl rfl ⟨_, _, rfl, rfl, rfl, rfl, rfl⟩

end Gurl.Vtls
