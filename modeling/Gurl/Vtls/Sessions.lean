import Gurl.Vtls.Slots

/-! Runs of the session cache: calls to put, take and remove at times that do not go back. -/

namespace Gurl.Vtls

open Gurl.Strcase

/-- A call on the cache. -/
inductive Call
  | put (cacheSession : Bool) (key : Text) (config : Option ConnConfig) (ietfTlsId : Nat)
      (validUntil : Int)
  | take (key : Text) (config : Option ConnConfig)
  | removeAll (key : Text) (config : Option ConnConfig)

/-- A session that was handed out: when, and for whom. -/
structure Taken where
  session : Session
  now : Nat
  key : Text
  config : Option ConnConfig

/-- A run so far: the cache, the time, for whom each session was put and what was handed out. The
session of call number `n` has the serial `n`. -/
structure Cached where
  cache : Scache
  clock : Nat
  puts : List (Text × Option ConnConfig)
  taken : List Taken

def Cached.start (maxPeers maxSessions : Nat) : Cached :=
  ⟨sslScacheCreate maxPeers maxSessions, 0, [], []⟩

/-- The session that the next call puts. -/
def Cached.newSession (st : Cached) (ietfTlsId : Nat) (validUntil : Int) : Session :=
  ⟨st.puts.length, ietfTlsId, validUntil⟩

/-- A call at a time. -/
def Cached.step (st : Cached) (a : Nat × Call) : Option Cached :=
  if a.1 < st.clock then none
  else match a.2 with
    | .put cacheSession key config ietfTlsId validUntil =>
      some { st with
        cache := (sslScachePut st.cache cacheSession key config
          (st.newSession ietfTlsId validUntil) a.1).2
        clock := a.1
        puts := st.puts ++ [(key, config)] }
    | .take key config =>
      some { st with
        cache := (sslScacheTake st.cache key config a.1).2
        clock := a.1
        taken := st.taken ++
          ((sslScacheTake st.cache key config a.1).1.map (⟨·, a.1, key, config⟩)).toList }
    | .removeAll key config =>
      some { st with cache := sslScacheRemoveAll st.cache key config, clock := a.1 }

/-- All sessions are of TLS 1.3, or none is. -/
def Uniform (sessions : List Session) : Prop :=
  (∀ s ∈ sessions, s.ietfTlsId = curlIetfProtoTls13) ∨
  (∀ s ∈ sessions, s.ietfTlsId ≠ curlIetfProtoTls13)

/-- `peer` is a slot for sessions put under `key` with `config`. -/
def FiledUnder (peer : ScachePeer) (key : Text) (config : Option ConnConfig) : Prop :=
  ∃ k k', key = some k ∧ peer.sslPeerKey = some k' ∧ upper k = upper k' ∧
    (peer.clientcert = certOf config ∨ peer.clientcert = slotCert config) ∧
    peer.keyPasswd = passwdOf config

/-- What holds of every slot in a run. -/
structure SlotOk (maxSessions : Nat) (st : Cached) (peer : ScachePeer) : Prop where
  max : peer.maxSessions = maxSessions
  bounded : peer.sessions.length ≤ maxSessions
  uniform : Uniform peer.sessions
  once : (peer.sessions.map Session.serial).Nodup
  valid : ∀ s ∈ peer.sessions, 0 < s.validUntil
  known : ∀ s ∈ peer.sessions, ∃ key config, st.puts[s.serial]? = some (key, config) ∧
    FiledUnder peer key config
  notTaken : ∀ s ∈ peer.sessions, s.serial ∉ st.taken.map (·.session.serial)

/-- What holds of every run. -/
structure CacheInv (maxSessions : Nat) (st : Cached) : Prop where
  nonempty : 0 < st.cache.peers.length
  lifetime : 0 < st.cache.defaultLifetimeSecs
  slots : ∀ (i : Nat) (peer : ScachePeer), st.cache.peers[i]? = some peer →
    SlotOk maxSessions st peer
  apart : ∀ (i j : Nat) (p q : ScachePeer), i ≠ j → st.cache.peers[i]? = some p →
    st.cache.peers[j]? = some q →
    ∀ s ∈ p.sessions, ∀ t ∈ q.sessions, s.serial ≠ t.serial
  takenOnce : (st.taken.map (·.session.serial)).Nodup
  takenKnown : ∀ t ∈ st.taken, t.session.serial < st.puts.length
  takenValid : ∀ t ∈ st.taken, (t.now : Int) ≤ t.session.validUntil
  takenMatch : ∀ t ∈ st.taken, ∃ key config peer, st.puts[t.session.serial]? = some (key, config) ∧
    FiledUnder peer key config ∧ peerMatches t.key t.config peer = true

section
variable {maxSessions : Nat} {st st' : Cached}

theorem SlotOk.serial_lt {peer : ScachePeer} (h : SlotOk maxSessions st peer) {s : Session}
    (hs : s ∈ peer.sessions) : s.serial < st.puts.length := by
  obtain ⟨key, config, hput, -⟩ := h.known s hs
  exact (List.getElem?_eq_some_iff.mp hput).1

/-- A slot whose sessions are some of those of a slot that was in order is in order. -/
theorem SlotOk.of_sublist {peer peer' : ScachePeer} (h : SlotOk maxSessions st peer)
    (hmax : peer'.maxSessions = peer.maxSessions) (hsub : peer'.sessions.Sublist peer.sessions)
    (hputs : ∀ (n : Nat) (put : Text × Option ConnConfig), st.puts[n]? = some put →
    st'.puts[n]? = some put)
    (hfiled : ∀ key config, FiledUnder peer key config → FiledUnder peer' key config)
    (htaken : ∀ s ∈ peer'.sessions, s.serial ∉ st'.taken.map (·.session.serial)) :
    SlotOk maxSessions st' peer' where
  max := hmax.trans h.max
  bounded := hsub.length_le.trans h.bounded
  uniform := h.uniform.imp (fun hu s hs => hu s (hsub.subset hs)) fun hu s hs =>
    hu s (hsub.subset hs)
  once := (hsub.map _).nodup h.once
  valid := fun s hs => h.valid s (hsub.subset hs)
  known := fun s hs => by
    obtain ⟨key, config, hput, hf⟩ := h.known s (hsub.subset hs)
    exact ⟨key, config, hputs _ _ hput, hfiled _ _ hf⟩
  notTaken := htaken

theorem SlotOk.cleared {peer : ScachePeer} (h : SlotOk maxSessions st peer) :
    SlotOk maxSessions st' (clearPeer peer) where
  max := h.max
  bounded := Nat.zero_le _
  uniform := .inl (by simp [clearPeer])
  once := List.nodup_nil
  valid := by simp [clearPeer]
  known := by simp [clearPeer]
  notTaken := by simp [clearPeer]

/-- Changing one slot: its sessions were there before or are new, and what is handed out comes from
it. -/
theorem CacheInv.update (h : CacheInv maxSessions st) {i : Nat} {peer peer' : ScachePeer}
    (hi : st.cache.peers[i]? = some peer) (hpeers : st'.cache.peers = st.cache.peers.set i peer')
    (hlife : st'.cache.defaultLifetimeSecs = st.cache.defaultLifetimeSecs)
    {more : List (Text × Option ConnConfig)} (hputs : st'.puts = st.puts ++ more)
    {extra : List Taken} (htaken : st'.taken = st.taken ++ extra)
    (hslot : SlotOk maxSessions st' peer')
    (hsub : ∀ s ∈ peer'.sessions, s ∈ peer.sessions ∨ st.puts.length ≤ s.serial)
    (hfrom : ∀ t ∈ extra, t.session ∈ peer.sessions ∧ (t.now : Int) ≤ t.session.validUntil ∧
      peerMatches t.key t.config peer = true)
    (honce : (extra.map (·.session.serial)).Nodup) : CacheInv maxSessions st' := by
  have hlt : i < st.cache.peers.length := (List.getElem?_eq_some_iff.mp hi).1
  have hslotOld := h.slots i peer hi
  have hget (j : Nat) (hj : i ≠ j) : st'.cache.peers[j]? = st.cache.peers[j]? := by
    rw [hpeers, List.getElem?_set_ne hj]
  have hself : st'.cache.peers[i]? = some peer' := by rw [hpeers, List.getElem?_set_self hlt]
  have hputs' : ∀ (n : Nat) (put : Text × Option ConnConfig), st.puts[n]? = some put →
    st'.puts[n]? = some put := by
    intro n put hn
    rw [hputs, List.getElem?_append_left (List.getElem?_eq_some_iff.mp hn).1, hn]
  have hnew (j : Nat) (hj : i ≠ j) {q : ScachePeer} (hq : st.cache.peers[j]? = some q) :
      ∀ s ∈ peer'.sessions, ∀ t ∈ q.sessions, s.serial ≠ t.serial := by
    intro s hs t ht
    rcases hsub s hs with hs | hs
    · exact h.apart i j peer q hj hi hq s hs t ht
    · have := (h.slots j q hq).serial_lt ht
      omega
  refine ⟨by rw [hpeers, List.length_set]; exact h.nonempty, hlife ▸ h.lifetime, ?_, ?_, ?_, ?_, ?_,
    ?_⟩
  · intro j q hq
    by_cases hj : i = j
    · subst hj
      obtain rfl : peer' = q := Option.some.inj (hself.symm.trans hq)
      exact hslot
    · rw [hget j hj] at hq
      have hok := h.slots j q hq
      refine hok.of_sublist rfl (List.Sublist.refl _) hputs' (fun _ _ hf => hf) fun s hs => ?_
      rw [htaken, List.map_append, List.mem_append, not_or]
      refine ⟨hok.notTaken s hs, fun hmem => ?_⟩
      obtain ⟨t, ht, hser⟩ := List.mem_map.mp hmem
      exact h.apart i j peer q hj hi hq t.session (hfrom t ht).1 s hs hser
  · intro a b p q hab hp hq s hs t ht
    by_cases ha : i = a
    · subst ha
      obtain rfl : peer' = p := Option.some.inj (hself.symm.trans hp)
      rw [hget b hab] at hq
      exact hnew b hab hq s hs t ht
    · rw [hget a ha] at hp
      by_cases hb : i = b
      · subst hb
        obtain rfl : peer' = q := Option.some.inj (hself.symm.trans hq)
        exact (hnew a ha hp t ht s hs).symm
      · rw [hget b hb] at hq
        exact h.apart a b p q hab hp hq s hs t ht
  · rw [htaken, List.map_append, List.nodup_append']
    refine ⟨h.takenOnce, honce, fun n hn hn' => ?_⟩
    obtain ⟨t, ht, rfl⟩ := List.mem_map.mp hn'
    exact hslotOld.notTaken t.session (hfrom t ht).1 hn
  · intro t ht
    rw [hputs, List.length_append]
    rw [htaken] at ht
    rcases List.mem_append.mp ht with ht | ht
    · have := h.takenKnown t ht
      omega
    · have := hslotOld.serial_lt (hfrom t ht).1
      omega
  · intro t ht
    rw [htaken] at ht
    rcases List.mem_append.mp ht with ht | ht
    · exact h.takenValid t ht
    · exact (hfrom t ht).2.1
  · intro t ht
    rw [htaken] at ht
    rcases List.mem_append.mp ht with ht | ht
    · obtain ⟨key, config, p, hput, hf⟩ := h.takenMatch t ht
      exact ⟨key, config, p, hputs' _ _ hput, hf⟩
    · obtain ⟨key, config, hput, hf⟩ := hslotOld.known t.session (hfrom t ht).1
      exact ⟨key, config, peer, hputs' _ _ hput, hf, (hfrom t ht).2.2⟩

/-- Changing one slot without handing out a session. -/
theorem CacheInv.change (h : CacheInv maxSessions st) {i : Nat} {peer peer' : ScachePeer}
    (hi : st.cache.peers[i]? = some peer) (hcache : st'.cache = st.cache.setPeer i peer')
    {more : List (Text × Option ConnConfig)} (hputs : st'.puts = st.puts ++ more)
    (htaken : st'.taken = st.taken) (hslot : SlotOk maxSessions st' peer')
    (hsub : ∀ s ∈ peer'.sessions, s ∈ peer.sessions ∨ st.puts.length ≤ s.serial) :
    CacheInv maxSessions st' := by
  have htaken' : st'.taken = st.taken ++ [] := by simpa using htaken
  exact h.update hi (by rw [hcache]; rfl) (by rw [hcache]; rfl) hputs htaken' hslot hsub (by simp)
    (by simp)

/-- A call that changes no slot. -/
theorem CacheInv.unchanged (h : CacheInv maxSessions st) (hcache : st'.cache = st.cache)
    {more : List (Text × Option ConnConfig)} (hputs : st'.puts = st.puts ++ more)
    (htaken : st'.taken = st.taken) : CacheInv maxSessions st' := by
  obtain ⟨peer, hi⟩ : ∃ peer, st.cache.peers[0]? = some peer :=
    Option.isSome_iff_exists.mp (by simp [h.nonempty])
  have hok := h.slots 0 peer hi
  have hself : st.cache.peers = st.cache.peers.set 0 peer := by
    obtain ⟨hlt, rfl⟩ := List.getElem?_eq_some_iff.mp hi
    simp
  refine h.change hi (by rw [hcache, Scache.setPeer, ← hself]) hputs htaken ?_ fun s hs => .inl hs
  refine hok.of_sublist rfl (List.Sublist.refl _) (fun n put hn => ?_) (fun _ _ hf => hf) ?_
  · rw [hputs, List.getElem?_append_left (List.getElem?_eq_some_iff.mp hn).1, hn]
  · rw [htaken]
    exact hok.notTaken

theorem trimSessions_append {maxSessions : Nat} (hmax : 1 ≤ maxSessions) (l : List Session)
    (s : Session) : ∃ old, old.Sublist l ∧ trimSessions maxSessions (l ++ [s]) = old ++ [s] ∧
      (old ++ [s]).length ≤ maxSessions := by
  induction l with
  | nil =>
    refine ⟨[], List.Sublist.refl _, ?_, hmax⟩
    rw [List.nil_append]
    unfold trimSessions
    rw [if_neg (by simp; omega)]
  | cons x l ih =>
    rw [List.cons_append]
    unfold trimSessions
    split
    · obtain ⟨old, hsub, heq, hlen⟩ := ih
      exact ⟨old, hsub.cons x, heq, hlen⟩
    · rename_i hle
      exact ⟨x :: l, List.Sublist.refl _, rfl, Nat.le_of_not_lt hle⟩

/-- A new session comes last, after some of those that were there, all of TLS 1.3 if it is. -/
theorem peerAddSession_spec (peer : ScachePeer) (s : Session) (now : Nat)
    (hmax : 1 ≤ peer.maxSessions) :
    ∃ old, peerAddSession peer s now = { peer with sessions := old ++ [s] } ∧
      old.Sublist peer.sessions ∧ (old ++ [s]).length ≤ peer.maxSessions ∧
        Uniform (old ++ [s]) := by
  unfold peerAddSession
  split
  · rename_i hver
    refine ⟨[], rfl, List.nil_sublist _, hmax, .inr fun x hx => ?_⟩
    obtain rfl : x = s := by simpa using hx
    simpa using hver
  · rename_i hver
    have hver : s.ietfTlsId = curlIetfProtoTls13 := by simpa using hver
    obtain ⟨old, hsub, heq, hlen⟩ := trimSessions_append hmax
      (peerRemoveNon13 (peerRemoveExpired peer now)).sessions s
    refine ⟨old, ?_, hsub.trans (List.filter_sublist.trans List.filter_sublist), hlen,
      .inl fun x hx => ?_⟩
    · simp only [peerRemoveNon13, peerRemoveExpired] at heq ⊢
      rw [heq]
    · rcases List.mem_append.mp hx with hx | hx
      · have := hsub.subset hx
        simpa using (List.mem_filter.mp this).2
      · obtain rfl : x = s := by simpa using hx
        exact hver

theorem limitLifetime_valid {scache : Scache} (h : 0 < scache.defaultLifetimeSecs) (s : Session)
    (now : Nat) : 0 < (limitLifetime scache s now).validUntil := by
  have h13 : 0 < curlScacheMax13LifetimeSec := by decide
  have h12 : 0 < curlScacheMax12LifetimeSec := by decide
  unfold limitLifetime
  simp only
  split <;> split <;> split <;> omega

theorem filedUnder_of_matches {peer : ScachePeer} {key : Text} {config : Option ConnConfig}
    (h : peerMatches key config peer = true) : FiledUnder peer key config := by
  obtain ⟨k, k', hk, hk', hup, hcert, hpass⟩ := (peerMatches_iff key config peer).mp h
  exact ⟨k, k', hk, hk', hup, .inl hcert, hpass⟩

theorem filedUnder_fresh (peer : ScachePeer) (key : Bytes) (config : Option ConnConfig) :
    FiledUnder (freshPeer peer key config) (some key) config :=
  ⟨key, key, rfl, rfl, rfl, .inr rfl, rfl⟩

/-- A session goes into a slot that is in order and for its key. -/
theorem SlotOk.add (hinv : CacheInv maxSessions st) {peer : ScachePeer}
    (h : SlotOk maxSessions st peer) (hmax : 1 ≤ maxSessions) {s : Session}
    (hs : s.serial = st.puts.length) (hvalid : 0 < s.validUntil) {key : Text}
    {config : Option ConnConfig} (hf : FiledUnder peer key config)
    (hputs : st'.puts = st.puts ++ [(key, config)]) (htaken : st'.taken = st.taken) (now : Nat) :
    SlotOk maxSessions st' (peerAddSession peer s now) ∧
    ∀ x ∈ (peerAddSession peer s now).sessions, x ∈ peer.sessions ∨ st.puts.length ≤ x.serial := by
  obtain ⟨old, heq, hsub, hlen, hunif⟩ := peerAddSession_spec peer s now (h.max ▸ hmax)
  rw [heq]
  have hmem : ∀ x ∈ old ++ [s], x ∈ peer.sessions ∨ x = s := by
    intro x hx
    rcases List.mem_append.mp hx with hx | hx
    · exact .inl (hsub.subset hx)
    · exact .inr (by simpa using hx)
  constructor
  · refine ⟨h.max, h.max ▸ hlen, hunif, ?_, ?_, ?_, ?_⟩
    · simp only [List.map_append, List.map_cons, List.map_nil]
      refine List.nodup_append'.mpr ⟨(hsub.map _).nodup h.once, List.nodup_singleton _, ?_⟩
      intro n hn hn'
      obtain ⟨x, hx, rfl⟩ := List.mem_map.mp hn
      have hlt := h.serial_lt (hsub.subset hx)
      rw [List.mem_singleton] at hn'
      omega
    · intro x hx
      rcases hmem x hx with hx | rfl
      · exact h.valid x hx
      · exact hvalid
    · intro x hx
      rcases hmem x hx with hx | rfl
      · obtain ⟨key', config', hput, hf'⟩ := h.known x hx
        refine ⟨key', config', ?_, hf'⟩
        rw [hputs, List.getElem?_append_left (List.getElem?_eq_some_iff.mp hput).1, hput]
      · refine ⟨key, config, ?_, hf⟩
        rw [hputs, hs]
        simp
    · intro x hx
      rw [htaken]
      rcases hmem x hx with hx | rfl
      · exact h.notTaken x hx
      · intro hin
        obtain ⟨t, ht, hser⟩ := List.mem_map.mp hin
        have := hinv.takenKnown t ht
        omega
  · intro x hx
    rcases hmem x hx with hx | rfl
    · exact .inl hx
    · exact .inr hs.ge

theorem SlotOk.fresh {peer : ScachePeer} (h : SlotOk maxSessions st peer) (key : Bytes)
    (config : Option ConnConfig) : SlotOk maxSessions st (freshPeer peer key config) where
  max := h.max
  bounded := Nat.zero_le _
  uniform := .inl (by simp [freshPeer, clearPeer])
  once := List.nodup_nil
  valid := by simp [freshPeer, clearPeer]
  known := by simp [freshPeer, clearPeer]
  notTaken := by simp [freshPeer, clearPeer]

theorem CacheInv.addSession (h : CacheInv maxSessions st) (hmax : 1 ≤ maxSessions)
    {key : Text} {config : Option ConnConfig} {s : Session} {now : Nat}
    (hs : s.serial = st.puts.length)
    (hcache : st'.cache = (addSession st.cache key config s now).2)
    (hputs : st'.puts = st.puts ++ [(key, config)]) (htaken : st'.taken = st.taken) :
    CacheInv maxSessions st' := by
  cases key with
  | none =>
    rcases addSession_none st.cache config s now with heq | ⟨i, peer, hi, heq⟩
    · exact h.unchanged (hcache.trans heq) hputs htaken
    · rw [heq] at hcache
      exact h.change hi hcache hputs htaken (h.slots i peer hi).cleared (by simp [clearPeer])
  | some key =>
    cases hexp : sessionExpired (limitLifetime st.cache s now) now with
    | true =>
      refine h.unchanged (hcache.trans ?_) hputs htaken
      unfold Vtls.addSession
      split
      · rfl
      · simp [hexp]
    | false =>
      have hvalid := limitLifetime_valid h.lifetime s now
      obtain ⟨i, peer, hi, ⟨hf, heq⟩ | ⟨-, heq⟩⟩ :=
        addSession_some h.nonempty key config s now hexp
      · obtain ⟨peer₁, hi₁, hm, -⟩ := findPeerByKey_some hf
        obtain rfl : peer = peer₁ := Option.some.inj (hi.symm.trans hi₁)
        rw [heq] at hcache
        obtain ⟨hslot, hsub⟩ := (h.slots i peer hi).add h hmax
          (s := limitLifetime st.cache s now) hs hvalid (filedUnder_of_matches hm) hputs htaken now
        exact h.change hi hcache hputs htaken hslot hsub
      · rw [heq] at hcache
        obtain ⟨hslot, hsub⟩ := ((h.slots i peer hi).fresh key config).add h hmax
          (s := limitLifetime st.cache s now) hs hvalid (filedUnder_fresh peer key config) hputs
          htaken now
        refine h.change hi hcache hputs htaken hslot fun x hx => ?_
        exact (hsub x hx).imp_left (by simp [freshPeer, clearPeer])

theorem CacheInv.take (h : CacheInv maxSessions st) {key : Text} {config : Option ConnConfig}
    {now : Nat} (hcache : st'.cache = (sslScacheTake st.cache key config now).2)
    (hputs : st'.puts = st.puts)
    (htaken : st'.taken = st.taken ++
      ((sslScacheTake st.cache key config now).1.map (⟨·, now, key, config⟩)).toList) :
    CacheInv maxSessions st' := by
  have hputs' : st'.puts = st.puts ++ [] := by simpa using hputs
  rcases sslScacheTake_cases st.cache key config now with heq | ⟨i, peer, hi, hf, hcase⟩
  · rw [heq] at hcache htaken
    exact h.unchanged hcache hputs' (by simpa using htaken)
  have hok := h.slots i peer hi
  have hold : ∀ (n : Nat) (put : Text × Option ConnConfig), st.puts[n]? = some put →
      st'.puts[n]? = some put := fun n put hn => by rw [hputs, hn]
  rcases hcase with ⟨-, heq⟩ | ⟨s, rest, hs, heq⟩
  · rw [heq] at hcache htaken
    have htaken : st'.taken = st.taken := by simpa using htaken
    have hsub : (peerRemoveExpired peer now).sessions.Sublist peer.sessions := List.filter_sublist
    refine h.change hi hcache hputs' htaken
      (hok.of_sublist rfl hsub hold (fun _ _ hf => hf) fun x hx => ?_)
      fun x hx => .inl (hsub.subset hx)
    rw [htaken]
    exact hok.notTaken x (hsub.subset hx)
  · rw [heq] at hcache htaken
    obtain ⟨peer₁, hi₁, hm, -⟩ := findPeerByKey_some hf
    obtain rfl : peer = peer₁ := Option.some.inj (hi.symm.trans hi₁)
    have hsub : (s :: rest).Sublist peer.sessions := hs ▸ List.filter_sublist
    have hrest : rest.Sublist peer.sessions := (List.sublist_cons_self s rest).trans hsub
    have hin : s ∈ peer.sessions := hsub.subset List.mem_cons_self
    have hnodup : (s :: rest).map Session.serial |>.Nodup := (hsub.map _).nodup hok.once
    have hfresh : (now : Int) ≤ s.validUntil := by
      have hmem : s ∈ (peerRemoveExpired peer now).sessions := hs ▸ List.mem_cons_self
      have hexp := (List.mem_filter.mp hmem).2
      have hpos := hok.valid s hin
      simp only [sessionExpired, Bool.not_eq_true', Bool.and_eq_false_iff, decide_eq_false_iff_not]
        at hexp
      omega
    have hpeers : st'.cache.peers =
        st.cache.peers.set i { peer with sessions := rest, age := st.cache.age + 1 } := by
      rw [hcache]
      rfl
    refine h.update hi hpeers (by rw [hcache]; rfl) hputs' htaken
      (hok.of_sublist rfl hrest hold (fun _ _ hf => hf) fun x hx => ?_)
      (fun x hx => .inl (hrest.subset hx)) ?_ (by simp)
    · rw [htaken]
      simp only [Option.map_some, Option.toList_some, List.map_append, List.map_cons, List.map_nil,
        List.mem_append, List.mem_singleton, not_or]
      refine ⟨hok.notTaken x (hrest.subset hx), fun heq => ?_⟩
      rw [List.map_cons, List.nodup_cons] at hnodup
      exact hnodup.1 (List.mem_map.mpr ⟨x, hx, heq⟩)
    · intro t ht
      simp only [Option.map_some, Option.toList_some, List.mem_singleton] at ht
      subst ht
      exact ⟨hin, hfresh, hm⟩

theorem CacheInv.removeAll (h : CacheInv maxSessions st) {key : Text} {config : Option ConnConfig}
    (hcache : st'.cache = sslScacheRemoveAll st.cache key config) (hputs : st'.puts = st.puts)
    (htaken : st'.taken = st.taken) : CacheInv maxSessions st' := by
  have hputs' : st'.puts = st.puts ++ [] := by simpa using hputs
  unfold sslScacheRemoveAll at hcache
  cases hf : findPeerByKey st.cache key config with
  | none =>
    rw [hf] at hcache
    exact h.unchanged hcache hputs' htaken
  | some i =>
    obtain ⟨peer, hi, -, -⟩ := findPeerByKey_some hf
    rw [hf] at hcache
    simp only [modify_eq_set hi] at hcache
    exact h.change hi hcache hputs' htaken (h.slots i peer hi).cleared (by simp [clearPeer])

/-- Every call keeps what holds of a run. -/
theorem CacheInv.step (h : CacheInv maxSessions st) (hmax : 1 ≤ maxSessions) {a : Nat × Call}
    (hstep : st.step a = some st') : CacheInv maxSessions st' := by
  obtain ⟨now, call⟩ := a
  replace hstep := (Option.ite_none_left_eq_some.mp hstep).2
  cases call with
  | put cacheSession key config ietfTlsId validUntil =>
    cases hstep
    cases cacheSession with
    | false => exact h.unchanged rfl rfl rfl
    | true => exact h.addSession hmax (s := st.newSession ietfTlsId validUntil) rfl rfl rfl rfl
  | take key config =>
    cases hstep
    exact h.take rfl rfl rfl
  | removeAll key config =>
    cases hstep
    exact h.removeAll rfl rfl rfl

theorem CacheInv.start {maxPeers maxSessions : Nat} (hpeers : 1 ≤ maxPeers) :
    CacheInv maxSessions (Cached.start maxPeers maxSessions) := by
  refine ⟨by simp [Cached.start, sslScacheCreate]; omega, by simp [Cached.start, sslScacheCreate],
    ?_, ?_, List.nodup_nil,
    by simp [Cached.start], by simp [Cached.start], by simp [Cached.start]⟩
  · intro i peer hi
    obtain rfl := List.eq_of_mem_replicate (List.mem_of_getElem? hi)
    exact ⟨rfl, Nat.zero_le _, .inl (by simp), List.nodup_nil, by simp, by simp, by simp⟩
  · intro i j p q _ hp _ s hs
    obtain rfl := List.eq_of_mem_replicate (List.mem_of_getElem? hp)
    cases hs

end

end Gurl.Vtls
