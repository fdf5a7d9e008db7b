import Gurl.Http.Chunker
import Gurl.Lib.Pieces

/-! The decoder can be left and entered again at every byte: how the network cuts the stream makes
no difference. -/

namespace Gurl.Http

open Strparse

variable {t : Transfer} {d d' d'' : Decoder} {b : UInt8} {rest : Bytes} {buf a : Bytes}
  {r : Curlcode} {o : Option Curlcode} {n k : Nat}

/-- Nothing is written before it is decoded, and the client takes everything. -/
structure Transfer.Decoding (t : Transfer) : Prop where
  noSkip : t.httpTeSkip = false
  writes : ∀ d w, t.write d w = .ok

/-! ### The passes of a call -/

/-- The passes of the loop on some bytes consume `n` of them. Without a result these are all bytes;
otherwise a pass has returned the result. -/
inductive Ends (t : Transfer) :
    Decoder → Bytes → Option Curlcode → Decoder → Nat → Prop
  | nil (d : Decoder) : Ends t d [] none d 0
  | ret {d d' : Decoder} {b : UInt8} {rest : Bytes} {r : Curlcode} {k : Nat} :
      pass t d b rest = .ret r d' k → Ends t d (b :: rest) (some r) d' k
  | next {d d' d'' : Decoder} {b : UInt8} {rest : Bytes} {o : Option Curlcode} {k n : Nat} :
      pass t d b rest = .next d' k → Ends t d' ((b :: rest).drop k) o d'' n →
      Ends t d (b :: rest) o d'' (k + n)

/-- The number of passes in a row that may leave the next byte `b` where it is. -/
def Chunker.rank (ch : Chunker) (b : UInt8) : Nat :=
  match ch.state with
  | .hex => 1
  | .data => if ch.datasize = 0 then 1 else 0
  | .trailer => if b = 13 ∨ b = 10 then 2 else 0
  | .trailerPostcr => 1
  | _ => 0

theorem Chunker.rank_le (ch : Chunker) (b : UInt8) : ch.rank b ≤ 2 := by
  unfold Chunker.rank
  split <;> try split
  all_goals omega

theorem dataPass_next (h : dataPass t d buf = .next d' k) :
    k = min d.ch.datasize buf.length ∧ d'.ch.datasize = d.ch.datasize - k ∧
      d'.ch.state = if d'.ch.datasize = 0 then .postlf else d.ch.state := by
  unfold dataPass at h
  simp only [List.length_take] at h
  split at h
  · cases h
    exact ⟨rfl, rfl, rfl⟩
  · split at h
    · cases h
      exact ⟨rfl, rfl, rfl⟩
    · cases h

theorem addTrailer_state (t : Transfer) (d : Decoder) (mem : Bytes) :
    (d.addTrailer t mem).1.ch.state = d.ch.state := rfl

/-- A pass at the end of a trailer line goes on behind the CR. -/
theorem trailerEnd_next (h : trailerEnd t d b = .next d' k) :
    d'.ch.state = .trailerCr ∧ k ≤ 1 := by
  unfold trailerEnd at h
  generalize d.addTrailer t [13, 10] = x at h
  obtain ⟨d1, r⟩ := x
  dsimp only at h
  generalize (if t.httpTeSkip then Curlcode.ok else t.write d1 _) = written at h
  split at h
  · cases h
  · split at h
    · cases h
    · split at h
      · cases h
      · cases h
        refine ⟨rfl, ?_⟩
        split <;> omega

/-- A pass consumes a byte, or the next one comes closer to that. -/
theorem pass_next (h : pass t d b rest = .next d' k) :
    k ≤ rest.length + 1 ∧ (k = 0 → d'.ch.rank b < d.ch.rank b) := by
  unfold pass at h
  cases hstate : d.ch.state with
  | hex =>
    simp only [hstate, hexPass] at h
    split at h
    · split at h
      · cases h
      · cases h
        exact ⟨by omega, by omega⟩
    · split at h
      · cases h
      · split at h
        · cases h
        · cases h
          exact ⟨by omega, fun _ => by simp [Chunker.rank, hstate]⟩
  | lf =>
    simp only [hstate, lfPass] at h
    split at h <;> cases h <;> exact ⟨by omega, by omega⟩
  | data =>
    simp only [hstate] at h
    obtain ⟨hk, hsize, hnext⟩ := dataPass_next h
    rw [List.length_cons] at hk
    refine ⟨by omega, fun hzero => ?_⟩
    have hdata : d.ch.datasize = 0 := by omega
    have hdata' : d'.ch.datasize = 0 := by omega
    rw [if_pos hdata'] at hnext
    simp [Chunker.rank, hnext, hstate, hdata]
  | postlf =>
    simp only [hstate, postlfPass] at h
    split at h
    · cases h
      exact ⟨by omega, by omega⟩
    · split at h
      · cases h
      · cases h
        exact ⟨by omega, by omega⟩
  | stop =>
    simp only [hstate, stopPass] at h
    split at h <;> cases h
  | trailer =>
    simp only [hstate, trailerPass] at h
    split at h
    · rename_i hend
      split at h
      · obtain ⟨hnext, hle⟩ := trailerEnd_next h
        exact ⟨by omega, fun _ => by simp [Chunker.rank, hnext, hstate, hend]⟩
      · cases h
        exact ⟨by omega, fun _ => by simp [Chunker.rank, Decoder.enter, hstate, hend]⟩
    · split at h
      · cases h
      · cases h
        exact ⟨by omega, by omega⟩
  | trailerCr =>
    simp only [hstate, trailerCrPass] at h
    split at h
    · cases h
      exact ⟨by omega, by omega⟩
    · cases h
  | trailerPostcr =>
    simp only [hstate, trailerPostcrPass] at h
    split at h
    · rename_i hother
      cases h
      exact ⟨by omega, fun _ => by simp [Chunker.rank, Decoder.enter, hstate, hother]⟩
    · cases h
      refine ⟨by split <;> omega, fun _ => by simp [Chunker.rank, Decoder.enter, hstate]⟩
  | done =>
    simp only [hstate] at h
    cases h
  | failed =>
    simp only [hstate] at h
    cases h

/-- A pass that returns has consumed no more than a byte, and leaves a last state. -/
theorem pass_ret (h : pass t d b rest = .ret r d' k) :
    k ≤ 1 ∧ (d'.ch.state = .done ∧ r = .ok ∨ d'.ch.state = .failed) := by
  have hfail : ∀ {e : Decoder} {code : ChunkCode} {res : Curlcode}, e.fail code res = .ret r d' k →
      k ≤ 1 ∧ (d'.ch.state = .done ∧ r = .ok ∨ d'.ch.state = .failed) := by
    intro e code res heq
    cases heq
    exact ⟨by omega, .inr rfl⟩
  unfold pass at h
  cases hstate : d.ch.state with
  | hex =>
    simp only [hstate, hexPass] at h
    split at h
    · split at h
      · exact hfail h
      · cases h
    · split at h
      · exact hfail h
      · split at h
        · exact hfail h
        · cases h
  | lf =>
    simp only [hstate, lfPass] at h
    split at h <;> cases h
  | data =>
    simp only [hstate, dataPass] at h
    split at h
    · cases h
    · split at h
      · cases h
      · exact hfail h
  | postlf =>
    simp only [hstate, postlfPass] at h
    split at h
    · cases h
    · split at h
      · exact hfail h
      · cases h
  | stop =>
    simp only [hstate, stopPass] at h
    split at h
    · cases h
      exact ⟨by omega, .inl ⟨rfl, rfl⟩⟩
    · exact hfail h
  | trailer =>
    simp only [hstate, trailerPass, trailerEnd] at h
    split at h
    · split at h
      · generalize d.addTrailer t [13, 10] = x at h
        generalize (if t.httpTeSkip then Curlcode.ok else t.write x.1 _) = written at h
        split at h
        · exact hfail h
        · split at h
          · exact hfail h
          · split at h
            · exact hfail h
            · cases h
      · cases h
    · split at h
      · exact hfail h
      · cases h
  | trailerCr =>
    simp only [hstate, trailerCrPass] at h
    split at h
    · cases h
    · exact hfail h
  | trailerPostcr =>
    simp only [hstate, trailerPostcrPass] at h
    split at h <;> cases h
  | done =>
    simp only [hstate] at h
    cases h
    exact ⟨by omega, .inl ⟨hstate, rfl⟩⟩
  | failed =>
    simp only [hstate] at h
    cases h
    exact ⟨by omega, .inr hstate⟩

theorem Ends.le (h : Ends t d buf o d' n) : n ≤ buf.length ∧ (o = none → n = buf.length) := by
  induction h with
  | nil => exact ⟨Nat.le_refl _, fun _ => rfl⟩
  | ret hpass =>
    have := (pass_ret hpass).1
    exact ⟨by rw [List.length_cons]; omega, nofun⟩
  | next hpass _ ih =>
    have hk := (pass_next hpass).1
    rw [List.length_drop, List.length_cons] at ih
    rw [List.length_cons]
    exact ⟨by omega, fun hnone => by have := ih.2 hnone; omega⟩

/-- A decoder that has returned in the middle of the bytes returns at once from then on. -/
theorem Ends.terminal (h : Ends t d buf (some r) d' n) :
    d'.ch.state = .done ∨ d'.ch.state = .failed := by
  generalize ho : some r = o at h
  induction h with
  | nil => cases ho
  | ret hpass =>
    rcases (pass_ret hpass).2 with ⟨hdone, -⟩ | hfailed
    · exact .inl hdone
    · exact .inr hfailed
  | next _ _ ih => exact ih ho

theorem Ends.unique {o' : Option Curlcode} {m : Nat} (h : Ends t d buf o d' n)
    (h' : Ends t d buf o' d'' m) : o = o' ∧ d' = d'' ∧ n = m := by
  induction h generalizing o' d'' m with
  | nil =>
    cases h'
    exact ⟨rfl, rfl, rfl⟩
  | ret hpass =>
    cases h' with
    | ret hpass' =>
      rw [hpass, Pass.ret.injEq] at hpass'
      obtain ⟨rfl, rfl, rfl⟩ := hpass'
      exact ⟨rfl, rfl, rfl⟩
    | next hpass' _ =>
      rw [hpass] at hpass'
      cases hpass'
  | next hpass _ ih =>
    cases h' with
    | ret hpass' =>
      rw [hpass] at hpass'
      cases hpass'
    | next hpass' hrest =>
      rw [hpass, Pass.next.injEq] at hpass'
      obtain ⟨rfl, rfl⟩ := hpass'
      obtain ⟨rfl, rfl, rfl⟩ := ih hrest
      exact ⟨rfl, rfl, rfl⟩

/-- With three passes for each byte, the loop comes to its end. -/
theorem readwriteLoop_ends {fuel c : Nat}
    (hfuel : ∀ b rest, buf = b :: rest → 3 * rest.length + d.ch.rank b < fuel) :
    ∃ o d' n, readwriteLoop t fuel d buf c = some (o.getD .ok, d', c + n) ∧
      Ends t d buf o d' n := by
  induction fuel generalizing d buf c with
  | zero =>
    cases buf with
    | nil => exact ⟨none, d, 0, rfl, .nil d⟩
    | cons b rest => exact absurd (hfuel b rest rfl) (by omega)
  | succ fuel ih =>
    cases buf with
    | nil => exact ⟨none, d, 0, rfl, .nil d⟩
    | cons b rest =>
      have hlt := hfuel b rest rfl
      rw [readwriteLoop]
      cases hpass : pass t d b rest with
      | ret r d' k => exact ⟨some r, d', k, rfl, .ret hpass⟩
      | next d' k =>
        obtain ⟨hle, hrank⟩ := pass_next hpass
        have hfuel' : ∀ b' rest', (b :: rest).drop k = b' :: rest' →
            3 * rest'.length + d'.ch.rank b' < fuel := by
          intro b' rest' hdrop
          have hlength : (b :: rest).length - k = rest'.length + 1 := by
            rw [← List.length_drop, hdrop, List.length_cons]
          rw [List.length_cons] at hlength
          rcases Nat.eq_zero_or_pos k with rfl | hpos
          · obtain ⟨rfl, rfl⟩ : b = b' ∧ rest = rest' := by simpa using hdrop
            have := hrank rfl
            omega
          · have := d'.ch.rank_le b'
            omega
        obtain ⟨o, d2, n, hloop, hends⟩ := ih (c := c + k) hfuel'
        refine ⟨o, d2, k + n, ?_, .next hpass hends⟩
        dsimp only
        rw [hloop, Nat.add_assoc]

/-! ### More bytes behind those of a call -/

/-- What a decoder becomes with a piece of the current chunk. -/
def Decoder.accept (d : Decoder) (piece : Bytes) : Decoder where
  ch := { d.ch with
    datasize := d.ch.datasize - piece.length
    state := if d.ch.datasize - piece.length = 0 then .postlf else d.ch.state }
  body := if d.ch.ignoreBody then d.body else d.body ++ piece
  trailers := d.trailers
  reallocs := d.reallocs

theorem dataPass_eq (ht : t.Decoding) (d : Decoder) (buf : Bytes) :
    dataPass t d buf =
      .next (d.accept (buf.take d.ch.datasize)) (buf.take d.ch.datasize).length := by
  simp only [dataPass, Decoder.accept, ht.noSkip, Bool.false_or, ht.writes, if_true]
  split <;> rfl

/-- Two pieces of a chunk are as good as one. -/
theorem Decoder.accept_append {p q : Bytes} (hp : p.length < d.ch.datasize) :
    (d.accept p).accept q = d.accept (p ++ q) := by
  have hleft : d.ch.datasize - p.length ≠ 0 := by omega
  unfold Decoder.accept
  simp only [hleft, if_false, List.length_append, Nat.sub_sub]
  cases d.ch.ignoreBody <;> simp

theorem pass_data (ht : t.Decoding) (hdata : d.ch.state = .data) (b : UInt8) (rest : Bytes) :
    pass t d b rest = .next (d.accept ((b :: rest).take d.ch.datasize))
      ((b :: rest).take d.ch.datasize).length := by
  unfold pass
  rw [hdata]
  exact dataPass_eq ht d (b :: rest)

theorem pass_data_append (ht : t.Decoding) (hdata : d.ch.state = .data)
    (hall : d.ch.datasize ≤ (b :: rest).length) (c : Bytes) :
    pass t d b (rest ++ c) = .next (d.accept ((b :: rest).take d.ch.datasize))
      ((b :: rest).take d.ch.datasize).length := by
  rw [pass_data ht hdata, ← List.cons_append, List.take_append_of_le_length hall]

/-- Only the data of a chunk and the last byte of all are looked at together with what follows. -/
theorem pass_rest (hdata : d.ch.state ≠ .data) (hstop : d.ch.state ≠ .stop) (b : UInt8)
    (rest rest' : Bytes) : pass t d b rest = pass t d b rest' := by
  unfold pass
  cases hstate : d.ch.state <;> first | rfl | contradiction

/-- A decoder whose count of leftover bytes does not matter. -/
def Decoder.settled (d : Decoder) : Decoder :=
  if d.ch.state = .done then { d with ch := { d.ch with datasize := 0 } } else d

theorem pass_stop_ne (hstop : d.ch.state = .stop) : pass t d b rest ≠ .next d' k := by
  unfold pass stopPass
  rw [hstop]
  dsimp only
  split <;> exact nofun

theorem pass_stop_rest (hstop : d.ch.state = .stop) (h : pass t d b rest = .ret r d' k)
    (rest' : Bytes) : ∃ d'', pass t d b rest' = .ret r d'' k ∧ d'.settled = d''.settled := by
  unfold pass stopPass at h ⊢
  rw [hstop] at h ⊢
  dsimp only at h ⊢
  split at h
  · rename_i hlf
    rw [if_pos hlf]
    cases h
    exact ⟨_, rfl, rfl⟩
  · rename_i hlf
    rw [if_neg hlf]
    exact ⟨d', h, rfl⟩

/-- The data of a chunk in two calls is the data in one. -/
theorem Ends.merge (ht : t.Decoding) {c : Bytes} (hdata : d.ch.state = .data)
    (hmore : (b :: rest).length < d.ch.datasize) (h : Ends t (d.accept (b :: rest)) c o d' n) :
    Ends t d (b :: rest ++ c) o d' ((b :: rest).length + (0 + n)) := by
  have hleft : d.ch.datasize - (b :: rest).length ≠ 0 := by omega
  have hdata' : (d.accept (b :: rest)).ch.state = .data := by
    simp only [Decoder.accept, hleft, if_false, hdata]
  have hsize : (d.accept (b :: rest)).ch.datasize = d.ch.datasize - (b :: rest).length := rfl
  rw [Nat.zero_add]
  cases c with
  | nil =>
    rw [List.append_nil]
    refine .next ?_ (List.drop_length ▸ h)
    rw [pass_data ht hdata, List.take_of_length_le hmore.le]
  | cons x xs =>
    have htake : (b :: rest ++ x :: xs).take d.ch.datasize =
        b :: rest ++ (x :: xs).take (d.ch.datasize - (b :: rest).length) := by
      rw [List.take_append, List.take_of_length_le hmore.le]
    cases h with
    | ret hpass =>
      rw [pass_data ht hdata'] at hpass
      cases hpass
    | next hpass hends =>
      rw [pass_data ht hdata', hsize, Decoder.accept_append hmore, Pass.next.injEq] at hpass
      obtain ⟨rfl, rfl⟩ := hpass
      have hpass : pass t d b (rest ++ x :: xs) = .next (d.accept (b :: rest ++
          (x :: xs).take (d.ch.datasize - (b :: rest).length))) ((b :: rest).length +
          ((x :: xs).take (d.ch.datasize - (b :: rest).length)).length) := by
        rw [pass_data ht hdata, ← List.cons_append, htake, List.length_append]
      have hdrop : ∀ j, (b :: rest ++ x :: xs).drop ((b :: rest).length + j) =
          (x :: xs).drop j := by
        intro j
        rw [← List.drop_drop, List.drop_left]
      rw [← Nat.add_assoc]
      exact .next hpass (hdrop _ ▸ hends)

/-- After all the bytes of a call, the decoder goes on as it would have in the same call. -/
theorem Ends.append (ht : t.Decoding) {c : Bytes} {m : Nat} (h : Ends t d a none d' n)
    (h' : Ends t d' c o d'' m) : Ends t d (a ++ c) o d'' (n + m) := by
  generalize hnone : (none : Option Curlcode) = o' at h
  induction h with
  | nil => simpa using h'
  | ret => cases hnone
  | @next d d1 d2 b rest o1 k n hpass hrest ih =>
    have hgoes := ih h' hnone
    have hk : k ≤ (b :: rest).length := (pass_next hpass).1
    have hdrop : (b :: rest ++ c).drop k = (b :: rest).drop k ++ c :=
      List.drop_append_of_le_length hk
    rw [Nat.add_assoc]
    by_cases hdata : d.ch.state = .data
    · rw [pass_data ht hdata, Pass.next.injEq] at hpass
      obtain ⟨rfl, rfl⟩ := hpass
      rcases Nat.lt_or_ge (b :: rest).length d.ch.datasize with hmore | hall
      · -- the chunk goes on in the bytes behind
        subst hnone
        rw [List.take_of_length_le hmore.le] at hrest ⊢
        rw [List.drop_length] at hrest
        cases hrest
        exact Ends.merge ht hdata hmore h'
      · exact .next (pass_data_append ht hdata hall c) (hdrop ▸ hgoes)
    · have hstop : d.ch.state ≠ .stop := fun hstop => pass_stop_ne hstop hpass
      exact .next ((pass_rest hdata hstop b _ rest).trans hpass) (hdrop ▸ hgoes)

/-- A call that has returned in the middle of its bytes returns there also with more bytes. -/
theorem Ends.extend (ht : t.Decoding) (h : Ends t d a (some r) d' n) (c : Bytes) :
    ∃ d'', Ends t d (a ++ c) (some r) d'' n ∧ d'.settled = d''.settled := by
  generalize hsome : some r = o at h
  induction h with
  | nil => cases hsome
  | @ret d d1 b rest r k hpass =>
    by_cases hdata : d.ch.state = .data
    · rw [pass_data ht hdata] at hpass
      cases hpass
    by_cases hstop : d.ch.state = .stop
    · obtain ⟨d2, hpass2, hsame⟩ := pass_stop_rest hstop hpass (rest ++ c)
      exact ⟨d2, .ret hpass2, hsame⟩
    · exact ⟨d1, .ret ((pass_rest hdata hstop b _ rest).trans hpass), rfl⟩
  | @next d d1 d2 b rest o1 k n hpass hrest ih =>
    obtain ⟨d3, hends, hsame⟩ := ih hsome
    have hk : k ≤ (b :: rest).length := (pass_next hpass).1
    rw [← List.drop_append_of_le_length hk] at hends
    refine ⟨d3, .next ?_ hends, hsame⟩
    by_cases hdata : d.ch.state = .data
    · rw [pass_data ht hdata, Pass.next.injEq] at hpass
      obtain ⟨rfl, rfl⟩ := hpass
      rcases Nat.lt_or_ge (b :: rest).length d.ch.datasize with hmore | hall
      · -- nothing is left to return at
        rw [List.take_of_length_le hmore.le, List.drop_length] at hrest
        cases hrest
        cases hsome
      · exact pass_data_append ht hdata hall c
    · have hstop : d.ch.state ≠ .stop := fun hstop => pass_stop_ne hstop hpass
      exact (pass_rest hdata hstop b _ rest).trans hpass

/-! ### Calls -/

/-- A call of `httpchunk_readwrite` as a consumer of the stream. -/
def decode (t : Transfer) (d : Decoder) (buf : Bytes) : Option (Decoder × Nat) :=
  (httpchunkReadwrite t d buf).map fun (_, d, n) => (d, n)

theorem decode_terminal (h : d.ch.state = .done ∨ d.ch.state = .failed) (buf : Bytes) :
    decode t d buf = some (d, 0) := by
  unfold decode httpchunkReadwrite
  rcases h with h | h <;> simp [h]

theorem decode_ends (ht : t.Decoding) (d : Decoder) (buf : Bytes) :
    ∃ o d' n, decode t d buf = some (d', n) ∧ Ends t d buf o d' n := by
  by_cases hterm : d.ch.state = .done ∨ d.ch.state = .failed
  · rw [decode_terminal hterm]
    cases buf with
    | nil => exact ⟨none, d, 0, rfl, .nil d⟩
    | cons b rest =>
      have hpass : ∃ r, pass t d b rest = .ret r d 0 := by
        unfold pass
        rcases hterm with h | h <;> simp [h]
      obtain ⟨r, hpass⟩ := hpass
      exact ⟨some r, d, 0, rfl, .ret hpass⟩
  · have hfuel : ∀ b rest, buf = b :: rest → 3 * rest.length + d.ch.rank b < 3 * buf.length := by
      rintro b rest rfl
      have := d.ch.rank_le b
      rw [List.length_cons]
      omega
    obtain ⟨o, d', n, hloop, hends⟩ := readwriteLoop_ends (t := t) (c := 0) hfuel
    rw [not_or] at hterm
    refine ⟨o, d', n, ?_, hends⟩
    simp only [decode, httpchunkReadwrite, hterm.1, hterm.2, if_false, ht.noSkip, Bool.false_and,
      Bool.false_eq_true, hloop, Option.map_some, Nat.zero_add]

/-- Where a call stops, the next one goes on. -/
theorem decode_resumable (ht : t.Decoding) :
    Pieces.Resumable (decode t) fun d d' => d.settled = d'.settled where
  equiv := ⟨fun _ => rfl, fun h => h.symm, fun h h' => h.trans h'⟩
  le {d d' buf n} h := by
    obtain ⟨o, d1, n1, hcall, hends⟩ := decode_ends ht d buf
    rw [h, Option.some.injEq, Prod.mk.injEq] at hcall
    obtain ⟨rfl, rfl⟩ := hcall
    exact hends.le.1
  nil d := by
    obtain ⟨o, d1, n1, hcall, hends⟩ := decode_ends ht d []
    cases hends
    exact ⟨d, hcall, rfl⟩
  split d a b := by
    obtain ⟨o, d1, n, hcall, hends⟩ := decode_ends ht d a
    obtain ⟨o3, d3, n3, hcall3, hends3⟩ := decode_ends ht d (a ++ b)
    cases o with
    | none =>
      obtain ⟨o2, d2, m, hcall2, hends2⟩ := decode_ends ht d1 b
      obtain ⟨rfl, rfl, rfl⟩ := hends3.unique (hends.append ht hends2)
      refine ⟨d1, n, d3, m, d3, hcall, ?_, hcall3, rfl⟩
      rw [hends.le.2 rfl, List.drop_length, List.nil_append]
      exact hcall2
    | some r =>
      obtain ⟨d2, hends2, hsame⟩ := hends.extend ht b
      obtain ⟨rfl, rfl, rfl⟩ := hends3.unique hends2
      exact ⟨d1, n3, d1, 0, d3, hcall, decode_terminal hends.terminal _, hcall3, hsame⟩

/-- Decoders that look the same have passed on the same and are in the same state. -/
theorem same_of_settled (h : d.settled = d'.settled) :
    d.body = d'.body ∧ d.trailers = d'.trailers ∧ d.ch.state = d'.ch.state ∧
      d.ch.lastCode = d'.ch.lastCode := by
  have hproj : ∀ e : Decoder, e.settled.body = e.body ∧ e.settled.trailers = e.trailers ∧
      e.settled.ch.state = e.ch.state ∧ e.settled.ch.lastCode = e.ch.lastCode := by
    intro e
    unfold Decoder.settled
    split <;> exact ⟨rfl, rfl, rfl, rfl⟩
  obtain ⟨hbody, htrailers, hstate, hcode⟩ := hproj d
  obtain ⟨hbody', htrailers', hstate', hcode'⟩ := hproj d'
  rw [h] at hbody htrailers hstate hcode
  exact ⟨hbody.symm.trans hbody', htrailers.symm.trans htrailers', hstate.symm.trans hstate',
    hcode.symm.trans hcode'⟩

/-- In whatever pieces a stream arrives, the decoder passes on the same body and the same trailer
lines, consumes the same number of bytes and ends in the same state as in a single call. Only the
count of the bytes behind the end, which `CHUNK_DONE` keeps, depends on the last piece. -/
theorem decoding_in_pieces (ht : t.Decoding) (d : Decoder) (pieces : List Bytes) :
    ∃ result one n many,
      httpchunkReadwrite t d pieces.flatten = some (result, one, n) ∧
      Pieces.feed (decode t) ⟨d, [], 0⟩ pieces = some many ∧
      many.state.body = one.body ∧ many.state.trailers = one.trailers ∧ many.consumed = n ∧
      many.state.ch.state = one.ch.state ∧ many.state.ch.lastCode = one.ch.lastCode ∧
      many.state.settled = one.settled := by
  obtain ⟨many, one, n, hfeed, hcall, hsame, hcount, -⟩ :=
    (decode_resumable ht).feed_flatten d pieces
  obtain ⟨⟨result, one', n'⟩, hone, heq⟩ := Option.map_eq_some_iff.mp hcall
  cases heq
  obtain ⟨hbody, htrailers, hstate, hcode⟩ := same_of_settled hsame
  exact ⟨result, one, n, many, hone, hfeed, hbody, htrailers, hcount, hstate, hcode, hsame⟩

/-- A transfer with enough memory and a client that takes everything. -/
def plainTransfer : Transfer where
  httpTeSkip := false
  headerline := 3
  realloc _ := true
  write _ _ := .ok

/-- A decoder before the first byte. -/
def Decoder.init : Decoder where
  ch := .init false
  body := []
  trailers := []
  reallocs := 0

theorem plainTransfer_decoding : plainTransfer.Decoding := ⟨rfl, fun _ _ => rfl⟩

/-- The chunk `abc` and the trailer `x:y`, cut inside the size, the data and the last line end. -/
theorem decoding_in_pieces_abc : ∃ many,
    Pieces.feed (decode plainTransfer) ⟨.init, [], 0⟩
      [[51], [13, 10, 97], [98, 99, 13, 10, 48, 13], [10, 120, 58, 121, 13, 10, 13], [10]] =
        some many ∧
      many.state.body = [97, 98, 99] ∧ many.state.trailers = [[120, 58, 121, 13, 10]] ∧
      many.consumed = 18 ∧ many.state.ch.state = .done := by
  obtain ⟨result, one, n, many, hone, hfeed, hbody, htrailers, hcount, hstate, -⟩ :=
    decoding_in_pieces plainTransfer_decoding .init
      [[51], [13, 10, 97], [98, 99, 13, 10, 48, 13], [10, 120, 58, 121, 13, 10, 13], [10]]
  have hview : (httpchunkReadwrite plainTransfer .init
      [51, 13, 10, 97, 98, 99, 13, 10, 48, 13, 10, 120, 58, 121, 13, 10, 13, 10]).map
        (fun (_, d, n) => (d.body, d.trailers, n, d.ch.state)) =
      some ([97, 98, 99], [[120, 58, 121, 13, 10]], 18, .done) := by decide
  rw [show httpchunkReadwrite plainTransfer .init
      [51, 13, 10, 97, 98, 99, 13, 10, 48, 13, 10, 120, 58, 121, 13, 10, 13, 10] =
    some (result, one, n) from hone] at hview
  simp only [Option.map_some, Option.some.injEq, Prod.mk.injEq] at hview
  obtain ⟨h1, h2, h3, h4⟩ := hview
  exact ⟨many, hfeed, hbody.trans h1, htrailers.trans h2, hcount.trans h3, hstate.trans h4⟩

end Gurl.Http
