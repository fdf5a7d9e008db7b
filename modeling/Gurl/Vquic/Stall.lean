import Gurl.Buffer.Calls
import Gurl.Vquic.Datagrams

/-! A capsule that has not arrived as a whole is waited for with room in the queue, unless it starts
too far behind the start of a chunk. -/

namespace Gurl.Vquic

open Buffer LinkedHeap

variable {s s' : State} {xs : Bytes} {ps : List Bytes}

/-- What a call of the loop keeps, and what it adds. -/
structure Fills (s : State) (xs : Bytes) (filled : Filled) : Prop where
  rep : Rep filled.recvbuf (xs ++ addedByAll filled.replies)
  options : filled.recvbuf.q.options = s.q.options
  offset : headOffset filled.recvbuf = headOffset s
  error : filled.error ≠ some .ok ∧ filled.error ≠ some .again

/-- One round of the loop. -/
theorem recvBufq_spec (hrep : Rep s xs) (next : Arrival) :
    ∃ s' res reply, recvBufq s next = some (s', res, reply) ∧
      Rep s' (xs ++ addedByAll reply.toList) ∧ s'.q.options = s.q.options ∧
        headOffset s' = headOffset s ∧
      ((∀ r, reply = some r → ∃ len, res = (next.reply len).result) ∧
        (reply = none → res = .again ∨ res = .outOfMemory)) := by
  obtain ⟨qs, ss, pp, hh⟩ := hrep
  obtain ⟨s', res, reply, qs', ss', pp', hsip, hs⟩ := bufqSipn_spec hh 0 next.bounded
  refine ⟨s', res, reply, hsip, ?_, sipn_options hsip, headOffset_sipn hh.layout hsip, ?_,
    fun hnone => (hs.refused hnone).result⟩
  · rw [show addedByAll reply.toList = addedBy reply from addedByAll_concat [] reply]
    exact ⟨qs', ss', pp', hs.holds⟩
  · intro r hr
    obtain ⟨hres, len, -, rfl⟩ := hs.called r hr
    exact ⟨len, hres⟩

theorem Fills.full (hrep : Rep s xs) : Fills s xs ⟨s, none, []⟩ where
  rep := by rwa [addedByAll, List.flatMap_nil, List.append_nil]
  options := rfl
  offset := rfl
  error := ⟨nofun, nofun⟩

theorem fillLoop_spec (hrep : Rep s xs) (arrivals : List Arrival) :
    ∃ filled, fillLoop s arrivals = some filled ∧ Fills s xs filled := by
  induction arrivals generalizing s xs with
  | nil =>
    obtain ⟨full, hfull⟩ := bufqIsFull_spec hrep
    rw [fillLoop, hfull]
    simp only [Option.bind_eq_bind, Option.bind_some]
    cases full with
    | true =>
      exact ⟨_, rfl, .full hrep⟩
    | false =>
      obtain ⟨s', res, reply, hrecv, hrep', hoptions, hoffset, hcalled, hrefused⟩ :=
        recvBufq_spec hrep nothing
      rw [hrecv]
      refine ⟨_, rfl, hrep', hoptions, hoffset, ?_⟩
      have hres : res = .again ∨ res = .outOfMemory := by
        cases reply with
        | none => exact hrefused rfl
        | some r =>
          obtain ⟨len, hlen⟩ := hcalled r rfl
          exact .inl hlen
      rcases hres with rfl | rfl
      · exact ⟨by simp, by simp⟩
      · exact ⟨by simp, by simp⟩
  | cons next arrivals ih =>
    obtain ⟨full, hfull⟩ := bufqIsFull_spec hrep
    rw [fillLoop, hfull]
    simp only [Option.bind_eq_bind, Option.bind_some]
    cases full with
    | true =>
      exact ⟨_, rfl, .full hrep⟩
    | false =>
      obtain ⟨s', res, reply, hrecv, hrep', hoptions, hoffset, -⟩ := recvBufq_spec hrep next
      rw [hrecv, Option.bind_some, if_neg Bool.false_ne_true]
      split
      · exact ⟨_, rfl, hrep', hoptions, hoffset, by simp, by simp⟩
      · rename_i hagain
        split
        · rename_i hok
          exact ⟨_, rfl, hrep', hoptions, hoffset, fun h => hok (Option.some.inj h),
            fun h => hagain (Option.some.inj h)⟩
        · split
          · exact ⟨_, rfl, hrep', hoptions, hoffset, by simp, by simp⟩
          · obtain ⟨filled, hloop, hfills⟩ := ih hrep'
            rw [hloop]
            refine ⟨_, rfl, ?_, hfills.options.trans hoptions, hfills.offset.trans hoffset,
              hfills.error⟩
            rw [addedByAll, List.flatMap_append, ← List.append_assoc]
            exact hfills.rep

/-! ### Looking for a capsule -/

theorem skipping_options {amount : Nat} {err : Curlcode} {read : UdpRead}
    (h : skipping s amount err = some (s', read)) :
    s'.q.options = s.q.options ∧ read.err = err := by
  obtain ⟨s1, hskip, heq⟩ := Option.map_eq_some_iff.mp h
  cases heq
  exact ⟨bufqSkip_options hskip, rfl⟩

/-- Where the call returns `CURLE_AGAIN` it has only looked at the bytes. -/
def Looked (s s' : State) (read : UdpRead) : Prop :=
  s'.q.options = s.q.options ∧ (read.err = .again → s' = s)

theorem processPayload_looked {len offset n : Nat} {read : UdpRead}
    (h : processPayload s len offset n = some (s', read)) : Looked s s' read := by
  obtain ⟨total, -, h⟩ := Option.bind_eq_some_iff.mp h
  split at h
  · cases h
    exact ⟨rfl, fun _ => rfl⟩
  · split at h
    · obtain ⟨hoptions, herr⟩ := skipping_options h
      exact ⟨hoptions, fun hagain => by rw [herr] at hagain; cases hagain⟩
    · obtain ⟨s1, hskip, h⟩ := Option.bind_eq_some_iff.mp h
      have hoptions := bufqSkip_options hskip
      split at h
      · cases h
        exact ⟨hoptions, nofun⟩
      · obtain ⟨⟨s2, res, bytes⟩, hread, h⟩ := Option.bind_eq_some_iff.mp h
        have hoptions' := (bufqRead_options hread).trans hoptions
        dsimp only at h
        split at h <;> cases h <;> exact ⟨hoptions', nofun⟩

theorem processCapsule_looked {len : Nat} {read : UdpRead}
    (h : processCapsule s len = some (s', read)) : Looked s s' read := by
  have hskip : ∀ {amount : Nat}, skipping s amount .recvError = some (s', read) →
      Looked s s' read := fun h =>
    ⟨(skipping_options h).1, fun hagain => by rw [(skipping_options h).2] at hagain; cases hagain⟩
  obtain ⟨varint, -, h⟩ := Option.bind_eq_some_iff.mp h
  split at h
  · cases h
    exact ⟨rfl, fun _ => rfl⟩
  · obtain ⟨shown, -, h⟩ := Option.bind_eq_some_iff.mp h
    split at h
    · split at h
      · exact hskip h
      · split at h
        · exact hskip h
        · split at h
          · cases h
            exact ⟨rfl, nofun⟩
          · exact processPayload_looked h
    · cases h
      exact ⟨rfl, fun _ => rfl⟩

theorem headOffset_peek {shown : Option Bytes} (hrep : Rep s xs)
    (h : bufqPeek s = some (s', shown)) : headOffset s' = headOffset s := by
  obtain ⟨qs, ss, pp, hh⟩ := hrep
  obtain ⟨s1, hprune, h⟩ := Option.bind_eq_some_iff.mp h
  obtain ⟨shown', -, h⟩ := Option.bind_eq_some_iff.mp h
  cases h
  unfold pruneEmptyHead at hprune
  split at hprune
  · rename_i p hhead
    obtain ⟨c, hc, hgone⟩ := Option.bind_eq_some_iff.mp hprune
    split at hgone
    · -- an empty chunk is the last one, and nothing of it was read
      rename_i hempty
      cases qs with
      | nil =>
        rw [show s.q.head = none from hh.layout.head.start_eq] at hhead
        cases hhead
      | cons q qs =>
        obtain rfl : q = p := by
          rw [show s.q.head = some q from hh.layout.head.start_eq] at hhead
          exact Option.some.inj hhead
        obtain rfl := hh.filled.eq_nil_of_empty hc hempty
        have hsound := hh.layout.sound_of_get (by simp) hc
        have hread := hsound.read
        have hstart := hsound.start
        simp only [chunkIsEmpty, ge_iff_le, decide_eq_true_eq] at hempty
        obtain ⟨s2, qs2, ss2, pp2, hprune2, hholds2, -, -, hless⟩ :=
          prune_spec hh.layout hh.filled.ready hh.layout.length_lt_fuel
        have hsame : pruneLoop s.fuel s = some s' := hgone
        rw [hprune2, Option.some.injEq] at hsame
        subst hsame
        have hshort := hless q c hhead hc (by simpa [chunkIsEmpty] using hempty)
        obtain rfl : qs2 = [] := List.eq_nil_of_length_eq_zero (by simpa using hshort)
        rw [headOffset_nil hholds2.layout, headOffset_cons hh.layout hc]
        omega
    · cases hgone
      rfl
  · cases hprune
    rfl

/-- Where `Curl_capsule_process_udp_raw` finds no capsule it leaves the place where the queue
starts. -/
theorem capsuleProcessUdpRaw_keeps {len : Nat} {read : UdpRead} (hrep : Rep s xs)
    (h : capsuleProcessUdpRaw s len = some (s', read)) :
    s'.q.options = s.q.options ∧ (read.err = .again → headOffset s' = headOffset s) := by
  unfold capsuleProcessUdpRaw at h
  split at h
  · cases h
    exact ⟨rfl, fun _ => rfl⟩
  · obtain ⟨empty, -, h⟩ := Option.bind_eq_some_iff.mp h
    split at h
    · cases h
      exact ⟨rfl, fun _ => rfl⟩
    · obtain ⟨⟨s1, shown⟩, hpeek, h⟩ := Option.bind_eq_some_iff.mp h
      have hoptions := bufqPeek_options hpeek
      have hoffset := headOffset_peek hrep hpeek
      split at h
      · rename_i heq
        cases heq
        split at h
        · obtain ⟨hskip, herr⟩ := skipping_options h
          exact ⟨hskip.trans hoptions, fun hagain => by rw [herr] at hagain; cases hagain⟩
        · obtain ⟨hlooked, hsame⟩ := processCapsule_looked h
          exact ⟨hlooked.trans hoptions, fun hagain => by rw [hsame hagain, hoffset]⟩
      · rename_i heq
        cases heq
        cases h
        exact ⟨hoptions, fun _ => hoffset⟩

/-! ### Runs -/

/-- What stays true of `ctx->recvbuf`, with its bytes. -/
structure Recvbuf (s : State) (xs : Bytes) : Prop where
  rep : Rep s xs
  options : s.q.options = recvbufInit.q.options

theorem Recvbuf.keeps {ys : Bytes} (h : Recvbuf s xs) (hoptions : s'.q.options = s.q.options)
    (hrep : Rep s' ys) : Recvbuf s' ys :=
  ⟨hrep, hoptions.trans h.options⟩

/-- What a call has done to the bytes, with what the filter below has given. -/
structure Stepped (xs : Bytes) (call : Call) (step : Step) : Prop where
  done : ∃ ys, Recvbuf step.after ys ∧
    ((step.read.err ≠ .ok ∧ step.read.err ≠ .again ∧ ys = xs ++ addedByAll step.replies) ∨
      0 < call.len ∧ step.read = (readCapsule call.len (xs ++ addedByAll step.replies)).1 ∧
        ys = (readCapsule call.len (xs ++ addedByAll step.replies)).2)
  offset : step.read.err = .again → headOffset step.after = headOffset step.before

theorem cfCapsuleRecv_spec (h : Recvbuf s xs) (call : Call) :
    ∃ step, cfCapsuleRecv s call = some step ∧ step.before = s ∧ Stepped xs call step := by
  obtain ⟨filled, hfill, hfills⟩ := fillLoop_spec (h.rep.withMallocs call.mallocs) call.arrivals
  have hfilled := h.keeps hfills.options hfills.rep
  rw [cfCapsuleRecv, hfill]
  simp only [Option.bind_eq_bind, Option.bind_some]
  cases herror : filled.error with
  | some result =>
    obtain ⟨hok, hagain⟩ := hfills.error
    rw [herror] at hok hagain
    exact ⟨_, rfl, rfl, ⟨_, hfilled, .inl ⟨fun h => hok (congrArg some h),
      fun h => hagain (congrArg some h), rfl⟩⟩, fun h => absurd (congrArg some h) hagain⟩
  | none =>
    dsimp only
    rcases Nat.eq_zero_or_pos call.len with hzero | hlen
    · have hread : capsuleProcessUdpRaw filled.recvbuf call.len =
          some (filled.recvbuf, ⟨.badFunctionArgument, []⟩) := by
        rw [hzero, capsuleProcessUdpRaw, if_pos rfl]
      rw [hread]
      exact ⟨_, rfl, rfl, ⟨_, hfilled, .inl ⟨by simp, by simp, rfl⟩⟩, by simp⟩
    · obtain ⟨after, hread, hrep⟩ := capsuleProcessUdpRaw_spec hfills.rep hlen
      obtain ⟨hkept, hoffset⟩ := capsuleProcessUdpRaw_keeps hfills.rep hread
      rw [hread]
      refine ⟨_, rfl, rfl, ⟨_, hfilled.keeps hkept hrep, .inr ⟨hlen, rfl, rfl⟩⟩, fun h => ?_⟩
      exact (hoffset h).trans hfills.offset

/-- Every run goes through. -/
theorem recvs_total (h : Recvbuf s xs) (calls : List Call) :
    ∃ steps, recvs s calls = some steps := by
  induction calls generalizing s xs with
  | nil => exact ⟨[], rfl⟩
  | cons call calls ih =>
    obtain ⟨step, hstep, -, ⟨ys, hafter, -⟩, -⟩ := cfCapsuleRecv_spec h call
    obtain ⟨steps, hsteps⟩ := ih hafter
    rw [recvs, hstep]
    simp only [Option.bind_eq_bind, Option.bind_some]
    rw [hsteps]
    exact ⟨_, rfl⟩

/-- Before each call, the capsule that is next fits behind the bytes of the first chunk that were
read already: these and the capsule are no more bytes than the queue has room for. -/
def RoomFor : List Bytes → List Step → Prop
  | _, [] => True
  | payloads, step :: steps =>
    (∀ p ∈ payloads.head?,
      headOffset step.before + (capsule p).length ≤ capsuleRecvChunks * capsuleChunkSize) ∧
    RoomFor (if step.read.err = .ok then payloads.tail else payloads) steps

/-- The call waits for more bytes, and there is no room for them. -/
def Stalls (step : Step) : Prop :=
  step.read.err = .again ∧ bufqIsFull step.after = some true

/-- A full queue holds all but the bytes read from its first chunk. -/
theorem Recvbuf.length_of_full (h : Recvbuf s xs) (hfull : bufqIsFull s = some true) :
    capsuleRecvChunks * capsuleChunkSize ≤ headOffset s + xs.length := by
  have hlen := Buffer.length_of_full h.rep hfull
  have hmax : s.q.maxChunks = capsuleRecvChunks := congrArg Prod.fst h.options
  have hsize : s.q.chunkSize = capsuleChunkSize := congrArg (fun o => o.2.1) h.options
  rwa [hmax, hsize] at hlen

theorem Recvbuf.headOffset_lt (h : Recvbuf s xs) :
    headOffset s < capsuleRecvChunks * capsuleChunkSize := by
  obtain ⟨qs, ss, pp, hh⟩ := h.rep
  have hle := headOffset_le hh.layout
  have hsize : s.q.chunkSize = capsuleChunkSize := congrArg (fun o => o.2.1) h.options
  rw [hsize] at hle
  exact Nat.lt_of_le_of_lt hle (by decide)

/-- The bytes in the queue when it looks for a capsule, and what it takes of the stream. -/
theorem readCapsule_stream {len : Nat} {zs : Bytes} (hfits : ∀ p ∈ ps, Fits len p)
    (hstream : zs <+: capsules ps) :
    (∃ p ∈ ps.head?, ∃ ws, zs = capsule p ++ ws ∧ readCapsule len zs = (⟨.ok, p⟩, ws)) ∨
      readCapsule len zs = (⟨.again, []⟩, zs) ∧
        (∀ p ∈ ps.head?, zs.length < (capsule p).length) ∧ (ps = [] → zs = []) := by
  cases ps with
  | nil =>
    obtain rfl : zs = [] := List.prefix_nil.mp hstream
    exact .inr ⟨rfl, nofun, fun _ => rfl⟩
  | cons p ps =>
    have hp := hfits p List.mem_cons_self
    have hcons : capsules (p :: ps) = capsule p ++ capsules ps := List.flatMap_cons
    rw [hcons] at hstream
    rcases Nat.lt_or_ge zs.length (capsule p).length with hshort | hwhole
    · have hfront : zs <+: capsule p :=
        List.prefix_of_prefix_length_le hstream (List.prefix_append _ _) hshort.le
      refine .inr ⟨readCapsule_short hp hfront hshort, ?_, nofun⟩
      rintro q ⟨⟩
      exact hshort
    · obtain ⟨ws, rfl⟩ : capsule p <+: zs :=
        List.prefix_of_prefix_length_le (List.prefix_append _ _) hstream hwhole
      exact .inl ⟨p, rfl, ws, rfl, readCapsule_capsule hp ws⟩

theorem recvs_room {calls : List Call} {steps : List Step} (h : Recvbuf s xs)
    (hrun : recvs s calls = some steps) (hpayload : ∀ p ∈ ps, p.length ≤ 65527)
    (hfits : ∀ call ∈ calls, ∀ p ∈ ps, p.length ≤ call.len)
    (hstream : xs ++ steps.flatMap (fun step => addedByAll step.replies) <+: capsules ps)
    (hroom : RoomFor ps steps) : ∀ step ∈ steps, ¬ Stalls step := by
  induction calls generalizing s xs ps steps with
  | nil =>
    cases hrun
    exact fun step hstep => absurd hstep List.not_mem_nil
  | cons call calls ih =>
    obtain ⟨step, hstep, rfl, ⟨ys, hafter, hcase⟩, hoffset⟩ := cfCapsuleRecv_spec h call
    rw [recvs, hstep] at hrun
    simp only [Option.bind_eq_bind, Option.bind_some] at hrun
    obtain ⟨more, hmore, heq⟩ := Option.bind_eq_some_iff.mp hrun
    cases heq
    rw [List.flatMap_cons, ← List.append_assoc] at hstream
    obtain ⟨hfirst, hlater⟩ := hroom
    have hfits' := fun c hc => hfits c (List.mem_cons_of_mem call hc)
    suffices hgo : ¬ Stalls step ∧ ∀ st ∈ more, ¬ Stalls st by
      intro st hst
      rcases List.mem_cons.mp hst with rfl | hst
      · exact hgo.1
      · exact hgo.2 st hst
    rcases hcase with ⟨hok, hagain, rfl⟩ | ⟨hlen, hread, hys⟩
    · -- an error of the filter below
      rw [if_neg hok] at hlater
      exact ⟨fun hstall => hagain hstall.1, ih hafter hmore hpayload hfits' hstream hlater⟩
    · have hall : ∀ p ∈ ps, Fits call.len p := fun p hp =>
        ⟨hfits call List.mem_cons_self p hp, by
          have := hpayload p hp
          unfold varintMax
          omega⟩
      rcases readCapsule_stream hall ((List.prefix_append _ _).trans hstream) with
        ⟨p, hp, ws, hzs, hresult⟩ | ⟨hresult, hshort, hnil⟩
      · rw [hresult] at hread hys
        obtain ⟨ps', rfl⟩ : ∃ ps', ps = p :: ps' := by
          cases ps with
          | nil => cases hp
          | cons q ps' =>
            cases hp
            exact ⟨ps', rfl⟩
        rw [hread, if_pos rfl] at hlater
        rw [hzs, List.append_assoc, show capsules (p :: ps') = capsule p ++ capsules ps' from
          List.flatMap_cons, List.prefix_append_right_inj] at hstream
        have herr : step.read.err = .ok := by rw [hread]
        refine ⟨fun hstall => (by rw [Stalls, herr] at hstall; cases hstall.1), ?_⟩
        rw [hys] at hafter
        exact ih hafter hmore (fun q hq => hpayload q (List.mem_cons_of_mem _ hq))
          (fun c hc q hq => hfits' c hc q (List.mem_cons_of_mem _ hq)) hstream hlater
      · rw [hresult] at hread hys
        rw [hread, if_neg nofun] at hlater
        have hrest : ys = xs ++ addedByAll step.replies := hys
        rw [hrest] at hafter
        refine ⟨fun hstall => ?_, ih hafter hmore hpayload hfits' hstream hlater⟩
        -- all that is missing is less than the room that the capsule has
        have hfull := hafter.length_of_full hstall.2
        rw [hoffset hstall.1] at hfull
        cases ps with
        | nil =>
          rw [hnil rfl, List.length_nil] at hfull
          have hlt := h.headOffset_lt
          omega
        | cons p ps =>
          have hless := hshort p rfl
          have hplace := hfirst p rfl
          omega

theorem recvbufInit_recvbuf : Recvbuf recvbufInit [] :=
  ⟨rep_init 4 true false (by decide) ⟨[], rfl, List.nodup_nil, fun _ hp => nomatch hp⟩, rfl⟩

/-- On every stream of datagrams that are UDP payloads and fit the callers' buffers, however it
arrives: the calls come through, and none of them waits with a full queue if each capsule has room
behind the bytes of the first chunk that were read before it. -/
theorem recv_never_stalls {ps : List Bytes} {calls : List Call}
    (hpayload : ∀ p ∈ ps, p.length ≤ 65527)
    (hfits : ∀ call ∈ calls, ∀ p ∈ ps, p.length ≤ call.len) :
    ∃ steps, recvs recvbufInit calls = some steps ∧
      (steps.flatMap (fun step => addedByAll step.replies) <+: capsules ps → RoomFor ps steps →
        ∀ step ∈ steps, ¬ Stalls step) := by
  obtain ⟨steps, hrun⟩ := recvs_total recvbufInit_recvbuf calls
  exact ⟨steps, hrun, fun hstream hroom =>
    recvs_room recvbufInit_recvbuf hrun hpayload hfits hstream hroom⟩

/-- A datagram comes with two bytes of the next one; then nothing; then the rest. -/
def sampleCalls : List Call :=
  [⟨1, 8, [⟨fun len => ⟨.ok, [0, 2, 0, 7, 0, 3].take len⟩, by simp⟩]⟩, ⟨0, 8, []⟩,
    ⟨1, 8, [⟨fun len => ⟨.ok, [0, 8, 9].take len⟩, by simp⟩]⟩]

theorem recv_never_stalls_sample :
    ∃ steps, recvs recvbufInit sampleCalls = some steps ∧
      steps.map (fun step => (headOffset step.before, step.read.err)) =
        [(0, .ok), (4, .again), (4, .ok)] ∧ ∀ step ∈ steps, ¬ Stalls step := by
  have hpayload : ∀ p ∈ [[(7 : UInt8)], [8, 9]], p.length ≤ 65527 := by decide
  have hfits : ∀ call ∈ sampleCalls, ∀ p ∈ [[(7 : UInt8)], [8, 9]], p.length ≤ call.len := by decide
  obtain ⟨steps, hrun, hnever⟩ := recv_never_stalls hpayload hfits
  have hresults : (recvs recvbufInit sampleCalls).map (fun steps =>
      (steps.flatMap fun step => addedByAll step.replies,
        steps.map fun step => (headOffset step.before, step.read.err))) =
      some ([0, 2, 0, 7, 0, 3, 0, 8, 9], [(0, .ok), (4, .again), (4, .ok)]) := by
    decide +kernel
  rw [hrun, Option.map_some, Option.some.injEq, Prod.mk.injEq] at hresults
  obtain ⟨hbytes, hoffsets⟩ := hresults
  refine ⟨steps, hrun, hoffsets, hnever ?_ ?_⟩
  · rw [hbytes]
    decide
  · obtain ⟨first, rest, rfl, hfirst, hrest⟩ := List.map_eq_cons_iff.mp hoffsets
    obtain ⟨second, rest, rfl, hsecond, hrest⟩ := List.map_eq_cons_iff.mp hrest
    obtain ⟨third, rest, rfl, hthird, hrest⟩ := List.map_eq_cons_iff.mp hrest
    obtain rfl : rest = [] := List.map_eq_nil_iff.mp hrest
    simp only [Prod.mk.injEq] at hfirst hsecond hthird
    simp only [RoomFor, hfirst, hsecond, hthird, and_true, if_true, reduceCtorEq, if_false,
      List.tail_cons, List.head?_cons, Option.mem_some_iff, forall_eq']
    decide

/-! ### A stream that stalls -/

theorem recvBufq_reply {res : Curlcode} {reply : Option Reply} {next : Arrival} (hrep : Rep s xs)
    (h : recvBufq s next = some (s', res, reply)) :
    ∀ (i : Nat) (r : Reply), reply.toList[i]? = some r → i = 0 ∧ ∃ len, r = next.reply len := by
  obtain ⟨qs, ss, pp, hh⟩ := hrep
  obtain ⟨s1, res1, reply1, qs1, ss1, pp1, hsip, hs⟩ := bufqSipn_spec hh 0 next.bounded
  rw [recvBufq, hsip] at h
  cases h
  intro i r hr
  cases reply with
  | none => cases hr
  | some r' =>
    obtain ⟨hi, rfl⟩ : i = 0 ∧ r' = r := by simpa [List.getElem?_singleton] using hr
    obtain ⟨-, len, -, hreply⟩ := hs.called r' rfl
    exact ⟨hi, len, hreply⟩

/-- The replies are those of the filter below, in the order of its answers. -/
theorem fillLoop_replies {arrivals : List Arrival} {filled : Filled} (hrep : Rep s xs)
    (h : fillLoop s arrivals = some filled) :
    ∀ (i : Nat) (r : Reply), filled.replies[i]? = some r →
      ∃ (next : Arrival) (len : Nat), (arrivals ++ [nothing])[i]? = some next ∧
        r = next.reply len := by
  induction arrivals generalizing s xs filled with
  | nil =>
    obtain ⟨full, hfull⟩ := bufqIsFull_spec hrep
    obtain ⟨s', res, reply, hrecv, -⟩ := recvBufq_spec hrep nothing
    rw [fillLoop, hfull] at h
    simp only [Option.bind_eq_bind, Option.bind_some, hrecv] at h
    intro i r hr
    cases full with
    | true =>
      cases h
      cases hr
    | false =>
      cases h
      obtain ⟨rfl, len, rfl⟩ := recvBufq_reply hrep hrecv i r hr
      exact ⟨nothing, len, rfl, rfl⟩
  | cons next arrivals ih =>
    obtain ⟨full, hfull⟩ := bufqIsFull_spec hrep
    obtain ⟨s', res, reply, hrecv, hrep', -⟩ := recvBufq_spec hrep next
    have hone : ∀ (i : Nat) (r : Reply), reply.toList[i]? = some r →
        ∃ (a : Arrival) (len : Nat), (next :: arrivals ++ [nothing])[i]? = some a ∧
          r = a.reply len := by
      intro i r hr
      obtain ⟨rfl, len, rfl⟩ := recvBufq_reply hrep hrecv i r hr
      exact ⟨next, len, rfl, rfl⟩
    rw [fillLoop, hfull] at h
    simp only [Option.bind_eq_bind, Option.bind_some, hrecv] at h
    cases full with
    | true =>
      cases h
      nofun
    | false =>
      rw [if_neg Bool.false_ne_true] at h
      split at h
      · cases h
        exact hone
      · split at h
        · cases h
          exact hone
        · split at h
          · cases h
            exact hone
          · rename_i hread
            obtain ⟨more, hmore, heq⟩ := Option.bind_eq_some_iff.mp h
            cases heq
            cases reply with
            | none => exact absurd rfl hread
            | some r' =>
              intro i r hr
              cases i with
              | zero => exact hone 0 r hr
              | succ i => exact ih hrep' hmore i r hr

/-- Two empty datagrams, and the header of the largest one. -/
def headers : Bytes := [0, 1, 0, 0, 1, 0, 0, 0x80, 0, 0xff, 0xf8, 0]

def stallingPayloads : List Bytes := [[], [], List.replicate 65527 0]

def headersArrive : Arrival :=
  ⟨fun len => ⟨.ok, (headers ++ List.replicate (len - 12) 0).take len⟩, fun len => by simp⟩

def zerosArrive : Arrival := ⟨fun len => ⟨.ok, List.replicate len 0⟩, fun len => by simp⟩

/-- The queue is filled in the first of three calls. -/
def stallingCalls : List Call :=
  [⟨4, 65527, [headersArrive, zerosArrive, zerosArrive, zerosArrive]⟩, ⟨4, 65527, []⟩,
    ⟨4, 65527, []⟩]

/-- The results of the calls, whether the queue is full after them, and the lengths of the
replies. -/
theorem stallingCalls_results :
    (recvs recvbufInit stallingCalls).map (fun steps => steps.map fun step =>
      (step.read.err, bufqIsFull step.after, step.replies.map (·.bytes.length))) =
    some [(.ok, some true, [16384, 16384, 16384, 16384]), (.ok, some true, []),
      (.again, some true, [])] := by
  decide +kernel

theorem zerosArrive_reply {r : Reply} {len : Nat} (h : r = zerosArrive.reply len)
    (hlen : r.bytes.length = 16384) : r = ⟨.ok, List.replicate 16384 0⟩ := by
  subst h
  have hle : len = 16384 := by rwa [zerosArrive, List.length_replicate] at hlen
  rw [hle, zerosArrive]

theorem headersArrive_reply {r : Reply} {len : Nat} (h : r = headersArrive.reply len)
    (hlen : r.bytes.length = 16384) : r = ⟨.ok, headers ++ List.replicate 16372 0⟩ := by
  subst h
  have hbytes : (headersArrive.reply len).bytes =
      (headers ++ List.replicate (len - 12) 0).take len := rfl
  have hheaders : headers.length = 12 := rfl
  rw [hbytes, List.length_take, List.length_append, List.length_replicate, hheaders] at hlen
  obtain rfl : len = 16384 := by omega
  have hall : (headers ++ List.replicate 16372 0).take 16384 =
      headers ++ List.replicate 16372 0 := by
    apply List.take_of_length_le
    rw [List.length_append, List.length_replicate, hheaders]
  exact congrArg (Reply.mk .ok) hall

theorem cfCapsuleRecv_replies {call : Call} {step : Step} (h : cfCapsuleRecv s call = some step) :
    ∃ filled, fillLoop { s with mallocs := call.mallocs } call.arrivals = some filled ∧
      step.replies = filled.replies := by
  obtain ⟨filled, hfill, h⟩ := Option.bind_eq_some_iff.mp h
  refine ⟨filled, hfill, ?_⟩
  split at h
  · cases h
    rfl
  · obtain ⟨r, -, h⟩ := Option.bind_eq_some_iff.mp h
    cases h
    rfl

/-- The replies to the first call of a run. -/
theorem recvs_replies {call : Call} {calls : List Call} {step : Step} {steps : List Step}
    (hrep : Rep s xs) (h : recvs s (call :: calls) = some (step :: steps)) :
    ∀ (i : Nat) (r : Reply), step.replies[i]? = some r →
      ∃ (next : Arrival) (len : Nat), (call.arrivals ++ [nothing])[i]? = some next ∧
        r = next.reply len := by
  obtain ⟨step', hstep, h⟩ := Option.bind_eq_some_iff.mp h
  obtain ⟨more, -, heq⟩ := Option.bind_eq_some_iff.mp h
  cases heq
  obtain ⟨filled, hfill, heq⟩ := cfCapsuleRecv_replies hstep
  rw [heq]
  exact fillLoop_replies (hrep.withMallocs call.mallocs) hfill

/-- The capsules of the stream, in the order of their bytes. -/
theorem capsules_stalling : capsules stallingPayloads = headers ++ List.replicate 65527 0 := by
  have hheader : capsuleEncapUdpHdr httpCapsuleHeaderMaxSize 65527 =
      [0, 0x80, 0, 0xff, 0xf8, 0] := by decide
  simp only [capsules, stallingPayloads, List.flatMap_cons, List.flatMap_nil, capsule,
    List.length_replicate, hheader, List.append_nil]
  rfl

/-- The replies are the first 64 KiB of these capsules. -/
theorem stallingCalls_stream {steps : List Step}
    (hrun : recvs recvbufInit stallingCalls = some steps) :
    steps.flatMap (fun step => addedByAll step.replies) <+: capsules stallingPayloads := by
  have hresults := stallingCalls_results
  rw [hrun, Option.map_some, Option.some.injEq] at hresults
  obtain ⟨step1, rest1, rfl, h1, hresults⟩ := List.map_eq_cons_iff.mp hresults
  obtain ⟨step2, rest2, rfl, h2, hresults⟩ := List.map_eq_cons_iff.mp hresults
  obtain ⟨step3, rest3, rfl, h3, hresults⟩ := List.map_eq_cons_iff.mp hresults
  obtain rfl : rest3 = [] := List.map_eq_nil_iff.mp hresults
  have hreplies : ∀ {step : Step} {a : Curlcode} {b : Option Bool} {ns : List Nat},
      (step.read.err, bufqIsFull step.after, step.replies.map (·.bytes.length)) = (a, b, ns) →
      step.replies.map (·.bytes.length) = ns := fun h => congrArg (fun t => t.2.2) h
  have hnone : ∀ {step : Step}, step.replies.map (·.bytes.length) = [] →
      addedByAll step.replies = [] := fun h => by
    rw [List.map_eq_nil_iff.mp h]
    rfl
  have hfirst := hreplies h1
  have hfrom := recvs_replies recvbufInit_recvbuf.rep hrun
  obtain ⟨r1, rs, hrs, hr1, hfirst⟩ := List.map_eq_cons_iff.mp hfirst
  obtain ⟨r2, rs, rfl, hr2, hfirst⟩ := List.map_eq_cons_iff.mp hfirst
  obtain ⟨r3, rs, rfl, hr3, hfirst⟩ := List.map_eq_cons_iff.mp hfirst
  obtain ⟨r4, rs, rfl, hr4, hfirst⟩ := List.map_eq_cons_iff.mp hfirst
  obtain rfl : rs = [] := List.map_eq_nil_iff.mp hfirst
  rw [hrs] at hfrom
  obtain ⟨a1, n1, ha1, hn1⟩ := hfrom 0 r1 rfl
  obtain ⟨a2, n2, ha2, hn2⟩ := hfrom 1 r2 rfl
  obtain ⟨a3, n3, ha3, hn3⟩ := hfrom 2 r3 rfl
  obtain ⟨a4, n4, ha4, hn4⟩ := hfrom 3 r4 rfl
  cases ha1
  cases ha2
  cases ha3
  cases ha4
  rw [List.flatMap_cons, List.flatMap_cons, List.flatMap_cons, List.flatMap_nil,
    hnone (hreplies h2), hnone (hreplies h3), List.append_nil, List.append_nil, List.append_nil,
    hrs, headersArrive_reply hn1 hr1, zerosArrive_reply hn2 hr2, zerosArrive_reply hn3 hr3,
    zerosArrive_reply hn4 hr4, capsules_stalling]
  change (headers ++ List.replicate 16372 0) ++ (List.replicate 16384 0 ++
    (List.replicate 16384 0 ++ (List.replicate 16384 0 ++ []))) <+: _
  rw [List.append_nil, List.append_assoc, List.replicate_append_replicate,
    List.replicate_append_replicate, List.replicate_append_replicate,
    List.prefix_append_right_inj]
  exact ⟨List.replicate 3 0, List.replicate_append_replicate⟩

/-- The queue is full, the third capsule needs 65533 bytes from the seventh byte of its first chunk
on, and the call waits for three more bytes. -/
theorem recv_stalls :
    (∀ p ∈ stallingPayloads, p.length ≤ 65527) ∧
    (∀ call ∈ stallingCalls, ∀ p ∈ stallingPayloads, p.length ≤ call.len) ∧
    ∃ steps, recvs recvbufInit stallingCalls = some steps ∧
      steps.flatMap (fun step => addedByAll step.replies) <+: capsules stallingPayloads ∧
      ∃ step ∈ steps, Stalls step := by
  have hlen : ∀ p ∈ stallingPayloads, p.length ≤ 65527 := by
    intro p hp
    simp only [stallingPayloads, List.mem_cons, List.not_mem_nil, or_false] at hp
    rcases hp with rfl | rfl | rfl
    · exact Nat.zero_le _
    · exact Nat.zero_le _
    · rw [List.length_replicate]
  obtain ⟨steps, hrun⟩ := recvs_total recvbufInit_recvbuf stallingCalls
  have hresults := stallingCalls_results
  rw [hrun, Option.map_some, Option.some.injEq] at hresults
  refine ⟨hlen, ?_, steps, hrun, stallingCalls_stream hrun, ?_⟩
  · intro call hcall p hp
    simp only [stallingCalls, List.mem_cons, List.not_mem_nil, or_false] at hcall
    rcases hcall with rfl | rfl | rfl <;> exact hlen p hp
  · have hmem : (.again, some true, []) ∈ steps.map fun step =>
        (step.read.err, bufqIsFull step.after, step.replies.map (·.bytes.length)) := by
      rw [hresults]
      decide
    obtain ⟨step, hstep, heq⟩ := List.mem_map.mp hmem
    exact ⟨step, hstep, congrArg Prod.fst heq, congrArg (fun t => t.2.1) heq⟩

end Gurl.Vquic
