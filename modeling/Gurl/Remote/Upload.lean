import Gurl.Remote.Session

/-! Uploads over NFS and SMB3: what the remote file holds, in terms of the blocks that the client
handed over and of the bytes of each block that the server acknowledged. -/

namespace Gurl.Remote

variable {proto : Proto} {F : Bytes} {s s' : Session} {a : Answers}

/-- The bytes of the `pwrite` that the library works on. -/
def queued : Option Op → Bytes
  | some (.pwrite _ bytes) => bytes
  | _ => []

/-- The bytes of each block that the server has acknowledged. -/
def acknowledged (acks : List (Bytes × Int)) : Bytes :=
  (acks.map fun p => p.1.take p.2.toNat).flatten

/-- The bytes of each block that was written. -/
def submitted (acks : List (Bytes × Int)) : Bytes := (acks.map Prod.fst).flatten

/-- A `pwrite` acknowledges at most the bytes that were queued. -/
def ValidAcks (acks : List (Bytes × Int)) : Prop := ∀ p ∈ acks, 0 ≤ p.2 ∧ p.2 ≤ p.1.length

instance (acks : List (Bytes × Int)) : Decidable (ValidAcks acks) :=
  inferInstanceAs (Decidable (∀ p ∈ acks, 0 ≤ p.2 ∧ p.2 ≤ (p.1.length : Int)))

theorem acknowledged_append (acks : List (Bytes × Int)) (p : Bytes × Int) :
    acknowledged (acks ++ [p]) = acknowledged acks ++ p.1.take p.2.toNat := by
  simp [acknowledged]

theorem submitted_append (acks : List (Bytes × Int)) (p : Bytes × Int) :
    submitted (acks ++ [p]) = submitted acks ++ p.1 := by
  simp [submitted]

/-- Every byte that was submitted is acknowledged only if each block was acknowledged as a whole. -/
theorem acknowledged_eq_iff {acks : List (Bytes × Int)} (hvalid : ValidAcks acks) :
    acknowledged acks = submitted acks ↔ ∀ p ∈ acks, p.2 = p.1.length := by
  have hle : ∀ acks : List (Bytes × Int),
      (acknowledged acks).length ≤ (submitted acks).length := by
    intro acks
    induction acks with
    | nil => exact Nat.le_refl _
    | cons p acks ih =>
      simp only [acknowledged, submitted, List.map_cons, List.flatten_cons, List.length_append,
        List.length_take] at ih ⊢
      omega
  constructor
  · intro heq
    induction acks with
    | nil => simp
    | cons p acks ih =>
      obtain ⟨hp, hacks⟩ := List.forall_mem_cons.mp hvalid
      have hlen := congrArg List.length heq
      have hrest := hle acks
      simp only [acknowledged, submitted, List.map_cons, List.flatten_cons, List.length_append,
        List.length_take] at hlen hrest heq
      have hfull : p.2 = p.1.length := by omega
      rw [show p.1.take p.2.toNat = p.1 by rw [hfull]; exact List.take_length] at heq
      exact List.forall_mem_cons.mpr ⟨hfull, ih hacks (List.append_cancel_left heq)⟩
  · intro hfull
    unfold acknowledged submitted
    congr 1
    refine List.map_congr_left fun p hp => ?_
    rw [hfull p hp]
    exact List.take_length

theorem pwriteAt_end (file bytes : Bytes) : pwriteAt file file.length bytes = file ++ bytes := by
  simp [pwriteAt]

/-! ### The invariant -/

/-- The status of a write that has completed and that the driver has not looked at. -/
def Session.unread (s : Session) : Int :=
  if s.req.state = .transfer ∧ s.req.opInflight = true ∧ s.req.opDone = true then s.req.opStatus
  else 0

/-- A request that has not failed. -/
def Session.Alive (s : Session) : Prop := s.result = none ∨ s.result = some .ok

/-- The invariant of an upload. -/
structure Upload (s : Session) : Prop where
  upload : s.req.upload = true
  state : s.req.state ≠ .stat
  pending : ∀ op, s.pending = some op → s.req.opDone = false ∧
    (op = .openFile ∧ s.req.state = .opening ∨
      ∃ bytes, op = .pwrite s.req.offset bytes ∧ s.req.state = .transfer ∧
        s.req.opInflight = true)
  blocks : s.blocks.flatten = submitted s.acks ++ queued s.pending
  file : s.file = acknowledged s.acks
  offset : s.req.offset + s.unread = s.file.length
  finished : s.result = some .ok → s.pending = none

/-- An upload between two blocks. -/
structure Idle (s : Session) : Prop where
  upload : s.req.upload = true
  state : s.req.state = .transfer
  inflight : s.req.opInflight = false
  pending : s.pending = none
  blocks : s.blocks.flatten = submitted s.acks
  file : s.file = acknowledged s.acks
  offset : s.req.offset = s.file.length

theorem Idle.toUpload (h : Idle s) : Upload s where
  upload := h.upload
  state := by simp [h.state]
  pending op hop := by simp [h.pending] at hop
  blocks := by simp [h.pending, queued, h.blocks]
  file := h.file
  offset := by simp [Session.unread, h.inflight, h.offset]
  finished _ := h.pending

theorem Idle.transferDone (h : Idle s) : Upload (transferDone a s) := by
  unfold Remote.transferDone
  rw [if_pos h.upload]
  refine ⟨h.upload, by simp, ?_, ?_, h.file, ?_, fun _ => h.pending⟩
  · intro op hop
    simp [h.pending] at hop
  · simp [h.pending, queued, h.blocks]
  · simp [Session.unread, h.offset]

theorem Idle.writeOrStop (h : Idle s) (hres : s.result = none)
    (halive : (writeOrStop a s).Alive) : Upload (writeOrStop a s) := by
  unfold Remote.writeOrStop writeNext at halive ⊢
  by_cases hread : a.read = .ok
  · simp only [hread, ne_eq, not_true_eq_false, if_false] at halive ⊢
    by_cases hblock : a.block = []
    · have hidle : Idle { s with
          req := { s.req with eos := a.eos, buf := a.block }, blocks := s.blocks ++ [a.block] } :=
        ⟨h.upload, h.state, h.inflight, h.pending, by simp [hblock, h.blocks], h.file, h.offset⟩
      rw [if_pos hblock]
      dsimp only
      split
      · exact hidle.transferDone
      · exact hidle.toUpload
    · simp only [hblock, if_false, Session.queue, Bool.false_eq_true] at halive ⊢
      cases hacc : a.accepted with
      | true =>
        simp only [if_true]
        refine ⟨h.upload, by simp [h.state], ?_, ?_, h.file, ?_, ?_⟩
        · intro op hop
          exact ⟨rfl, .inr ⟨a.block, (Option.some.inj hop).symm, h.state, rfl⟩⟩
        · simp [queued, h.blocks]
        · simp [Session.unread, h.offset]
        · simp [hres]
      | false => simp [hacc, Session.fail, Session.Alive] at halive
  · simp [hread, Session.fail, Session.Alive] at halive

/-- An upload without an operation in progress, once its offset is up to date. -/
theorem Upload.idle (h : Upload s) (hpending : s.pending = none) {offset : Int}
    (hoffset : offset = s.file.length) :
    Idle { s with req := { s.req with opInflight := false, state := .transfer, offset } } := by
  have hblocks := h.blocks
  rw [hpending, show queued none = [] from rfl, List.append_nil] at hblocks
  exact ⟨h.upload, rfl, rfl, hpending, hblocks, h.file, hoffset⟩

theorem Upload.uploadTransfer (h : Upload s) (hstate : s.req.state = .transfer)
    (hres : s.result = none) :
    (uploadTransfer a s).Alive → Upload (uploadTransfer a s) := by
  have hno : s.req.opInflight = false ∨ s.req.opDone = true → s.pending = none := by
    intro hor
    cases hp : s.pending with
    | none => rfl
    | some op =>
      obtain ⟨hdone, ⟨-, hopen⟩ | ⟨_, -, -, hinflight⟩⟩ := h.pending op hp
      · simp [hstate] at hopen
      · simp [hdone, hinflight] at hor
  have hoffset := h.offset
  unfold Remote.uploadTransfer
  dsimp only
  split
  · rename_i hinflight
    split
    · exact fun _ => h
    · rename_i hdone
      replace hdone : s.req.opDone = true := by simpa using hdone
      simp only [Session.unread, hstate, hinflight, hdone, and_self, if_true] at hoffset
      have hidle := h.idle (hno (.inr hdone)) hoffset
      rw [← hstate] at hidle
      split
      · simp [Session.fail, Session.Alive]
      · split
        · exact fun _ => hidle.transferDone
        · exact hidle.writeOrStop hres
  · rename_i hinflight
    replace hinflight : s.req.opInflight = false := by simpa using hinflight
    simp only [Session.unread, hinflight, Bool.false_eq_true, false_and, and_false, if_false,
      add_zero] at hoffset
    have hidle := h.idle (hno (.inl hinflight)) hoffset
    rw [← hstate, ← hinflight] at hidle
    exact hidle.writeOrStop hres

theorem Upload.doing (h : Upload s) (hres : s.result = none) :
    (doing proto a s).Alive → Upload (doing proto a s) := by
  have hoffset := h.offset
  unfold Remote.doing
  dsimp only
  split
  · rename_i hservice
    simp [hservice, Session.fail, Session.Alive]
  split
  · rename_i hstate
    simp only [Session.queue, Session.enter]
    split
    · intro _
      have hno : s.pending = none := by
        cases hp : s.pending with
        | none => rfl
        | some op =>
          obtain ⟨-, ⟨-, hopen⟩ | ⟨_, -, hopen, -⟩⟩ := h.pending op hp <;> simp [hstate] at hopen
      have hblocks := h.blocks
      rw [hno] at hblocks
      simp only [Session.unread, hstate, reduceCtorEq, false_and, if_false] at hoffset
      refine ⟨h.upload, by simp, ?_, hblocks, h.file, ?_, ?_⟩
      · intro op hop
        exact ⟨rfl, .inl ⟨(Option.some.inj hop).symm, rfl⟩⟩
      · simpa only [Session.unread, reduceCtorEq, false_and, if_false] using hoffset
      · simp [hres]
    · simp [Session.fail, Session.Alive]
  · rename_i hstate
    split
    · exact fun _ => h
    rename_i hdone
    split
    · simp [Session.fail, Session.Alive]
    rw [if_pos h.upload, if_pos h.upload]
    have hno : s.pending = none := by
      cases hp : s.pending with
      | none => rfl
      | some op => simp [(h.pending op hp).1] at hdone
    simp only [Session.unread, hstate, reduceCtorEq, false_and, if_false, add_zero] at hoffset
    have hidle := h.idle hno hoffset
    exact hidle.toUpload.uploadTransfer rfl hres
  · rename_i hstate
    exact absurd hstate h.state
  · rename_i hstate
    rw [if_pos h.upload]
    exact h.uploadTransfer hstate hres
  · exact fun _ => h

theorem Upload.complete (h : Upload s) {status : Int}
    (hstep : complete proto F status s = some s') (hvalid : ValidAcks s'.acks) : Upload s' := by
  obtain ⟨op, hop, rfl⟩ := Option.map_eq_some_iff.mp hstep
  have hblocks := h.blocks
  have hoffset := h.offset
  obtain ⟨hdone, ⟨rfl, hstate⟩ | ⟨bytes, rfl, hstate, hinflight⟩⟩ := h.pending op hop
  · rw [hop] at hblocks
    simp only [Session.unread, hstate, reduceCtorEq, false_and, if_false] at hoffset
    refine ⟨h.upload, by simp [Session.completed, hstate], by simp [Session.completed], hblocks,
      h.file, ?_, fun _ => rfl⟩
    simpa only [Session.unread, Session.completed, hstate, reduceCtorEq, false_and, if_false]
      using hoffset
  · rw [hop] at hblocks
    simp only [Session.unread, hdone, Bool.false_eq_true, and_false, if_false, add_zero] at hoffset
    obtain ⟨hpos, hle⟩ : 0 ≤ status ∧ status ≤ bytes.length :=
      hvalid (bytes, status) (List.mem_append_right _ (List.mem_singleton_self _))
    have hfile : pwriteAt s.file s.req.offset.toNat (bytes.take status.toNat) =
        s.file ++ bytes.take status.toNat := by
      rw [hoffset, Int.toNat_natCast, pwriteAt_end]
    refine ⟨h.upload, by simp [Session.completed, hstate], by simp [Session.completed], ?_, ?_, ?_,
      fun _ => rfl⟩
    · simp only [Session.completed, submitted_append, hblocks, queued, List.append_nil]
    · rw [Session.completed, acknowledged_append, hfile, h.file]
    · simp only [Session.unread, Session.completed, hstate, hinflight, and_self, if_true]
      rw [hfile, hoffset, List.length_append, List.length_take]
      omega

theorem upload_init {data : EasyData} {d : DoAnswers} (hupload : data.upload = true)
    (hdo : requestDo data d = .ok s) : Upload s := by
  obtain ⟨data', offset, remaining, hrange, rfl⟩ := requestDo_ok hdo
  rw [requestRange, if_pos hupload] at hrange
  cases hrange
  refine ⟨hupload, by simp [Session.start], by simp [Session.start], rfl, rfl, ?_, ?_⟩
  · simp [Session.start, Session.unread]
  · simp [Session.start]

/-! ### Runs -/

section

variable (a : Answers) (s : Session)

@[simp] theorem queue_acks (op : Op) (accepted : Bool) (res : Curlcode) :
    (s.queue op accepted res).acks = s.acks := by
  unfold Session.queue
  split <;> rfl

@[simp] theorem enter_acks (state : ReqState) : (s.enter state).acks = s.acks := rfl

@[simp] theorem transferDone_acks : (transferDone a s).acks = s.acks := by
  unfold transferDone
  split <;> rfl

@[simp] theorem readNext_acks : (readNext a s).acks = s.acks := by simp [readNext]

@[simp] theorem writeOrStop_acks : (writeOrStop a s).acks = s.acks := by
  unfold writeOrStop writeNext
  dsimp only
  split_ifs <;> simp_all [Session.fail]

@[simp] theorem uploadTransfer_acks : (uploadTransfer a s).acks = s.acks := by
  unfold uploadTransfer
  dsimp only
  split_ifs <;> simp [Session.fail]

@[simp] theorem advance_acks (n : Int) : (s.advance n).acks = s.acks := rfl

@[simp] theorem finishOrRead_acks : (finishOrRead a s).acks = s.acks := by
  unfold finishOrRead
  split <;> simp

@[simp] theorem downloadTransfer_acks : (downloadTransfer a s).acks = s.acks := by
  unfold downloadTransfer
  dsimp only
  split_ifs <;> simp [Session.fail]

@[simp] theorem beginTransfer_acks : (beginTransfer a s).acks = s.acks := by
  unfold beginTransfer
  simp only [apply_ite Session.acks, transferDone_acks, readNext_acks, enter_acks, ite_self]
  rfl

@[simp] theorem countBack_acks : s.countBack.acks = s.acks := by
  unfold Session.countBack
  split <;> rfl

theorem withSize_acks (size : Int) : (s.withSize size).acks = s.acks := rfl

@[simp] theorem stat_acks : (proto.stat a s).acks = s.acks := by
  cases proto
  · simp [Proto.stat, nfsStat, apply_ite Session.acks, Session.fail]
  · dsimp only [Proto.stat]
    unfold smb3Stat
    split
    · rfl
    split
    · rfl
    rw [beginTransfer_acks, countBack_acks]
    exact withSize_acks s _

@[simp] theorem doing_acks : (doing proto a s).acks = s.acks := by
  unfold doing
  dsimp only
  split
  · rfl
  · split
    · simp
    · split_ifs <;> simp [Session.fail]
    · simp
    · split_ifs <;> simp
    · rfl

end

theorem upload_invariant {s₀ : Session} (h₀ : Upload s₀)
    (hr : Runs.Reach (step proto F) s₀ s) (halive : s.Alive) (hvalid : ValidAcks s.acks) :
    Upload s := by
  induction hr with
  | refl => exact h₀
  | @snoc s s' e hr hstep ih =>
    cases e with
    | complete status =>
      obtain ⟨op, hop, rfl⟩ := Option.map_eq_some_iff.mp hstep
      have hresult : (s.completed proto F status op).result = s.result := by cases op <;> rfl
      have hacks : s.acks ⊆ (s.completed proto F status op).acks := by
        cases op <;> simp [Session.completed]
      have hs := ih (by rwa [Session.Alive, hresult] at halive) fun p hp => hvalid p (hacks hp)
      exact hs.complete hstep hvalid
    | doing a =>
      simp only [step] at hstep
      split at hstep
      · rename_i hres
        cases hstep
        rw [doing_acks] at hvalid
        exact (ih (.inl hres) hvalid).doing hres halive
      · cases hstep
        exact ih halive hvalid

/-- The remote file of an upload that ended with `CURLE_OK` holds all the blocks of the client if
and only if the server has acknowledged every block as a whole. -/
theorem upload_complete_iff {data : EasyData} {d : DoAnswers} {s₀ : Session}
    (hupload : data.upload = true) (hdo : requestDo data d = .ok s₀)
    (hr : Runs.Reach (step proto F) s₀ s) (hok : s.result = some .ok)
    (hvalid : ValidAcks s.acks) :
    s.file = s.blocks.flatten ↔ ∀ p ∈ s.acks, p.2 = p.1.length := by
  have h := upload_invariant (upload_init hupload hdo) hr (.inr hok) hvalid
  have hblocks := h.blocks
  rw [h.finished hok, show queued none = [] from rfl, List.append_nil] at hblocks
  rw [h.file, hblocks]
  exact acknowledged_eq_iff hvalid

/-- The easy handle of an upload of unknown size. -/
def uploadData : EasyData :=
  { upload := true, noBody := false, useRange := false, range := none, resumeFrom := 0
    maxdownload := -1, infilesize := -1 }

/-- Answers of a client and a library without failures. -/
def answers (block : Bytes) (eos : Bool) : Answers :=
  { service := .ok, accepted := true, write := .ok, writeEos := .ok, read := .ok, block, eos }

/-- An upload of one block, of which the server acknowledges `status` bytes. -/
def oneBlockUpload (block : Bytes) (status : Int) : List Event :=
  [.doing (answers [] false), .complete 0, .doing (answers block true), .complete status,
   .doing (answers [] true)]

theorem upload_complete_iff_full_ack :
    ∃ s₀ s, requestDo uploadData ⟨true, true, true, true, 0⟩ = .ok s₀ ∧
      Runs.Reach (step .nfs []) s₀ s ∧ s.result = some .ok ∧ s.file = s.blocks.flatten := by
  refine ⟨_, _, rfl, Runs.Reach.of_exec
    (show Runs.exec (step .nfs []) _ (oneBlockUpload [1, 2, 3] 3) = some _ from rfl), rfl, ?_⟩
  exact (upload_complete_iff rfl (show requestDo uploadData ⟨true, true, true, true, 0⟩ = .ok _
    from rfl) (Runs.Reach.of_exec
      (show Runs.exec (step .nfs []) _ (oneBlockUpload [1, 2, 3] 3) = some _ from rfl)) rfl
    (by decide)).mpr (by decide)

/-- A block of three bytes, of which the server acknowledges one: the upload ends with `CURLE_OK`,
over either protocol, and the remote file holds one byte. -/
theorem short_write_drops_bytes :
    ∃ s₀, requestDo uploadData ⟨true, true, true, true, 0⟩ = .ok s₀ ∧
      (∃ s, Runs.exec (step .nfs []) s₀ (oneBlockUpload [1, 2, 3] 1) = some s ∧
        s.result = some .ok ∧ s.acks = [([1, 2, 3], 1)] ∧ s.file = [1] ∧
        s.file ≠ s.blocks.flatten) ∧
      ∃ s, Runs.exec (step .smb3 []) s₀ (oneBlockUpload [1, 2, 3] 1) = some s ∧
        s.result = some .ok ∧ s.acks = [([1, 2, 3], 1)] ∧ s.file = [1] ∧
        s.file ≠ s.blocks.flatten :=
  ⟨_, rfl, ⟨_, rfl, rfl, rfl, rfl, by decide⟩, _, rfl, rfl, rfl, rfl, by decide⟩

end Gurl.Remote
