import Gurl.Dynbuf
import Gurl.Lib.DotSegments

/-! `lib/urlapi.c`: the dot segments of a path. A path is the list of its bytes, the zero behind
them is not in the list. Memory is granted. -/

namespace Gurl.Urlapi

/-- `is_dot`: the bytes behind a dot, plain or percent-encoded. -/
def isDot : Bytes → Option Bytes
  | 0x2e :: p => some p
  | 0x25 :: 0x32 :: c :: p => if c ||| 0x20 = 0x65 then some p else none
  | _ => none

/-- `memrchr`: the index of the last `c`. -/
def memrchr (s : Bytes) (c : UInt8) : Option Nat :=
  if c ∈ s then some (s.length - 1 - s.reverse.idxOf c) else none

/-- The last segment leaves the output buffer. -/
def trimSegment (out : Dynbuf) : Dynbuf :=
  match memrchr out.content 0x2f with
  | some last => (out.setlen last).1
  | none => out

/-- What a turn of the loop does with a slash and what is behind it. -/
inductive SlashTurn where
  /-- `continue` at this slash, after trimming the output or not. -/
  | again (trim : Bool) (input : Bytes)
  /-- Add a slash, after trimming the output or not, and `break`. -/
  | last (trim : Bool)
  | copy

def slashTurn (p : Bytes) : SlashTurn :=
  match isDot p with
  | none => .copy
  | some [] => .last false
  | some (c :: p) =>
    if c = 0x2f then .again false (c :: p)
    else
      match isDot (c :: p) with
      | some [] => .last true
      | some (c' :: p') => if c' = 0x2f then .again true (c' :: p') else .copy
      | none => .copy

/-- The loop of `dedotdotify`: `none` when there are more turns than `fuel`. -/
def dedotLoop : Nat → Dynbuf → Bytes → Option (Dynbuf × Curlcode)
  | _, out, [] => some (out, .ok)
  | 0, _, _ :: _ => none
  | fuel + 1, out, c :: input =>
    match if c = 0x2f then slashTurn input else .copy with
    | .again trim input => dedotLoop fuel (if trim then trimSegment out else out) input
    | .last trim => some ((if trim then trimSegment out else out).nappend [0x2f] true)
    | .copy =>
      let r := out.nappend [c] true
      if r.2 = .ok then dedotLoop fuel r.1 input else some r

/-- A leading `./` or `../` goes; `none` when the path is two dots. -/
def skipLeadingDots (input : Bytes) : Option Bytes :=
  match isDot input with
  | none => some input
  | some (0x2f :: dinput) => some dinput
  | some dinput =>
    match isDot dinput with
    | some [] => none
    | some (0x2f :: dinput) => some dinput
    | _ => some input

/-- `dedotdotify`: the return value and `*outp`. -/
def dedotdotify (input : Bytes) : Option (Int × Option Bytes) :=
  if input.length < 2 then some (0, none)
  else
    let out := Dynbuf.init (input.length + 1)
    let r := match skipLeadingDots input with
      | none => some (out, Curlcode.ok)
      | some input => dedotLoop input.length out input
    r.map fun r => if r.2 = .ok then (0, some r.1.content) else (1, none)

/-! `dedotdotify` computes the algorithm of RFC 3986, 5.2.4, where `%2e` is a dot too. -/

open DotSegments

/-- The spellings of a dot: `.`, `%2e`, `%2E`. -/
def dots : List Bytes := [[0x2e], [0x25, 0x32, 0x65], [0x25, 0x32, 0x45]]

/-- Two of them. -/
def dotdots : List Bytes := dots.flatMap fun a => dots.map (a ++ ·)

/-- The paths of URLs. -/
def rfc3986 : Spelling UInt8 where
  sep := 0x2f
  dot seg := dots.contains seg
  dotdot seg := dotdots.contains seg
  dot_nil := by decide
  dotdot_nil := by decide

/-- `remove_dot_segments`. -/
def removeDotSegments (path : Bytes) : Bytes := remove rfc3986 path []

theorem isDot_iff {input p : Bytes} :
    isDot input = some p ↔ ∃ d ∈ dots, input = d ++ p := by
  have hcase : ∀ c : UInt8, c ||| 0x20 = 0x65 ↔ c = 0x65 ∨ c = 0x45 := by decide +kernel
  constructor
  · intro h
    unfold isDot at h
    split at h
    · cases h
      exact ⟨[0x2e], by decide, rfl⟩
    · rename_i c p'
      split at h
      · rename_i hc
        cases h
        rcases (hcase c).mp hc with rfl | rfl
        · exact ⟨[0x25, 0x32, 0x65], by decide, rfl⟩
        · exact ⟨[0x25, 0x32, 0x45], by decide, rfl⟩
      · cases h
    · cases h
  · rintro ⟨d, hd, rfl⟩
    simp only [dots, List.mem_cons, List.not_mem_nil, or_false] at hd
    rcases hd with rfl | rfl | rfl <;> rfl

theorem dot_iff {seg : Bytes} : rfc3986.dot seg = true ↔ seg ∈ dots := List.contains_iff_mem

theorem dotdot_iff {seg : Bytes} :
    rfc3986.dotdot seg = true ↔ ∃ a ∈ dots, ∃ b ∈ dots, seg = a ++ b := by
  change dotdots.contains seg = true ↔ _
  rw [List.contains_iff_mem, dotdots, List.mem_flatMap]
  constructor
  · rintro ⟨a, ha, hseg⟩
    obtain ⟨b, hb, rfl⟩ := List.mem_map.mp hseg
    exact ⟨a, ha, b, hb, rfl⟩
  · rintro ⟨a, ha, b, hb, rfl⟩
    exact ⟨a, ha, List.mem_map.mpr ⟨b, hb, rfl⟩⟩

theorem free_dots {d : Bytes} (h : d ∈ dots) : rfc3986.sep ∉ d := by
  revert d
  decide

/-- What a turn at a slash does depends on the segment behind the slash. -/
theorem slashTurn_seg {seg rest : Bytes} (hseg : rfc3986.sep ∉ seg)
    (hrest : AtEnd rfc3986 rest) :
    slashTurn (seg ++ rest) =
      if rfc3986.dot seg then if rest = [] then .last false else .again false rest
      else if rfc3986.dotdot seg then if rest = [] then .last true else .again true rest
      else .copy := by
  have hstop : ∀ {c : UInt8} {p : Bytes}, c = 0x2f → AtEnd rfc3986 (c :: p) := by
    rintro c p rfl b hb
    cases hb
    rfl
  by_cases hdot : rfc3986.dot seg = true
  · have hread : isDot (seg ++ rest) = some rest := isDot_iff.mpr ⟨seg, dot_iff.mp hdot, rfl⟩
    rw [slashTurn, hread, if_pos hdot]
    cases rest with
    | nil => rfl
    | cons c rest =>
      dsimp only
      rw [if_pos (show c = 0x2f from hrest c rfl), if_neg (List.cons_ne_nil c rest)]
  · rw [if_neg hdot]
    by_cases hdotdot : rfc3986.dotdot seg = true
    · obtain ⟨a, ha, b, hb, rfl⟩ := dotdot_iff.mp hdotdot
      have hread : isDot (a ++ b ++ rest) = some (b ++ rest) :=
        isDot_iff.mpr ⟨a, ha, List.append_assoc a b rest⟩
      have hread' : isDot (b ++ rest) = some rest := isDot_iff.mpr ⟨b, hb, rfl⟩
      rw [slashTurn, hread, if_pos hdotdot]
      cases b with
      | nil => exact absurd hb (by decide)
      | cons c b =>
        have hc : c ≠ 0x2f := fun heq => free_dots hb (heq ▸ List.mem_cons_self)
        rw [List.cons_append] at hread'
        simp only [List.cons_append, if_neg hc, hread']
        cases rest with
        | nil => rfl
        | cons c' rest =>
          dsimp only
          rw [if_pos (show c' = 0x2f from hrest c' rfl), if_neg (List.cons_ne_nil c' rest)]
    · -- a dot is read only from the start of a longer segment
      rw [if_neg hdotdot, slashTurn]
      cases hread : isDot (seg ++ rest) with
      | none => rfl
      | some p =>
        obtain ⟨d, hd, heq⟩ := isDot_iff.mp hread
        have hnot : ¬ AtEnd rfc3986 p := fun hend =>
          hdot (dot_iff.mpr ((seg_unique hseg (free_dots hd) hrest hend heq).1 ▸ hd))
        cases p with
        | nil => exact absurd nofun hnot
        | cons c p =>
          dsimp only
          rw [if_neg fun hc => hnot (hstop hc)]
          cases hread' : isDot (c :: p) with
          | none => rfl
          | some q =>
            obtain ⟨d', hd', heq'⟩ := isDot_iff.mp hread'
            rw [heq', ← List.append_assoc] at heq
            have hfree : rfc3986.sep ∉ d ++ d' := by
              rw [List.mem_append]
              exact not_or.mpr ⟨free_dots hd, free_dots hd'⟩
            have hnot' : ¬ AtEnd rfc3986 q := fun hend =>
              hdotdot (dotdot_iff.mpr ⟨d, hd, d', hd', (seg_unique hseg hfree hrest hend heq).1⟩)
            cases q with
            | nil => exact absurd nofun hnot'
            | cons c' q =>
              dsimp only
              rw [if_neg fun hc => hnot' (hstop hc)]

/-- The bytes of a segment are copied one after the other. -/
theorem dedotLoop_copy {seg : Bytes} (hseg : rfc3986.sep ∉ seg) {fuel : Nat} {out : Dynbuf}
    {rest : Bytes} (hfuel : (seg ++ rest).length ≤ fuel)
    (hroom : out.content.length + (seg ++ rest).length + 1 ≤ out.toobig) :
    ∃ fuel' out', dedotLoop fuel out (seg ++ rest) = dedotLoop fuel' out' rest ∧
      rest.length ≤ fuel' ∧ out'.content = out.content ++ seg ∧ out'.toobig = out.toobig := by
  induction seg generalizing fuel out with
  | nil => exact ⟨fuel, out, rfl, hfuel, (List.append_nil _).symm, rfl⟩
  | cons c seg ih =>
    cases fuel with
    | zero => cases hfuel
    | succ fuel =>
      have hc : c ≠ 0x2f := fun heq => hseg (heq ▸ List.mem_cons_self)
      have hseg' : rfc3986.sep ∉ seg := fun h => hseg (List.mem_cons_of_mem _ h)
      rw [List.cons_append, List.length_cons] at hfuel hroom
      have hfits : [c].length + out.content.length + 1 ≤ out.toobig := by
        rw [List.length_singleton]
        omega
      obtain ⟨hok, hcontent, htoobig⟩ := Dynbuf.nappend_ok hfits
      have hroom' : (out.nappend [c] true).1.content.length + (seg ++ rest).length + 1 ≤
          (out.nappend [c] true).1.toobig := by
        rw [hcontent, htoobig, List.length_append, List.length_singleton]
        omega
      obtain ⟨fuel', out', hloop, hfuel', hcontent', htoobig'⟩ :=
        ih hseg' (Nat.le_of_succ_le_succ hfuel) hroom'
      refine ⟨fuel', out', ?_, hfuel', ?_, by rw [htoobig', htoobig]⟩
      · rw [← hloop, List.cons_append, dedotLoop, if_neg hc]
        dsimp only
        rw [if_pos hok]
      · rw [hcontent', hcontent, List.append_assoc]
        rfl

theorem trimSegment_join {out : Dynbuf} {segs : List Bytes} (hfree : Free rfc3986 segs)
    (h : out.content = join rfc3986 segs) :
    (trimSegment out).content = join rfc3986 segs.dropLast ∧
      (trimSegment out).toobig = out.toobig := by
  unfold trimSegment
  rw [h]
  induction segs using List.reverseRecOn with
  | nil => exact ⟨h, rfl⟩
  | append_singleton segs seg =>
    have hseg : (0x2f : UInt8) ∉ seg.reverse := by
      rw [List.mem_reverse]
      exact hfree seg (List.mem_append_right _ List.mem_cons_self)
    have hlast : memrchr (join rfc3986 segs ++ 0x2f :: seg) 0x2f =
        some (join rfc3986 segs).length := by
      have hidx : (seg.reverse ++ 0x2f :: (join rfc3986 segs).reverse).idxOf 0x2f =
          seg.length := by
        rw [List.idxOf_append_of_notMem hseg, List.length_reverse, List.idxOf_cons_self]
        rfl
      rw [memrchr, if_pos (List.mem_append_right _ List.mem_cons_self), List.reverse_append,
        List.reverse_cons, List.append_assoc, List.singleton_append, hidx, List.length_append,
        List.length_cons]
      congr 1
      omega
    rw [join_concat] at h ⊢
    rw [show rfc3986.sep = 0x2f from rfl] at h ⊢
    rw [hlast, List.dropLast_concat]
    dsimp only
    have hlen : (join rfc3986 segs).length ≤ out.content.length := by
      rw [h, List.length_append]
      omega
    obtain ⟨hcontent, htoobig⟩ := Dynbuf.setlen_spec out hlen
    exact ⟨by rw [hcontent, h, List.take_left], htoobig⟩

/-- The slash at the end of the loop. -/
theorem addSlash {out : Dynbuf} {outs : List Bytes} (h : out.content = join rfc3986 outs)
    (hroom : out.content.length + 2 ≤ out.toobig) :
    (out.nappend [0x2f] true).2 = .ok ∧
      (out.nappend [0x2f] true).1.content = join rfc3986 (outs ++ [[]]) := by
  have hfits : [(0x2f : UInt8)].length + out.content.length + 1 ≤ out.toobig := by
    rw [List.length_singleton]
    omega
  obtain ⟨hok, hcontent, -⟩ := Dynbuf.nappend_ok hfits
  refine ⟨hok, ?_⟩
  rw [hcontent, h, join_concat]
  rfl

/-- The loop keeps the segments that the algorithm keeps. -/
theorem dedotLoop_join {segs outs : List Bytes} {fuel : Nat} {out : Dynbuf}
    (hsegs : Free rfc3986 segs) (houts : Free rfc3986 outs)
    (hout : out.content = join rfc3986 outs) (hfuel : (join rfc3986 segs).length ≤ fuel)
    (hroom : out.content.length + (join rfc3986 segs).length + 1 ≤ out.toobig) :
    ∃ out', dedotLoop fuel out (join rfc3986 segs) = some (out', .ok) ∧
      out'.content = join rfc3986 (resolve rfc3986 outs segs) := by
  induction segs generalizing outs fuel out with
  | nil =>
    refine ⟨out, ?_, hout⟩
    cases fuel <;> rfl
  | cons seg segs ih =>
    have hseg := hsegs seg List.mem_cons_self
    have hrest : Free rfc3986 segs := fun s hs => hsegs s (List.mem_cons_of_mem _ hs)
    have htrim := trimSegment_join houts hout
    have htrimlen : (trimSegment out).content.length ≤ out.content.length := by
      rw [htrim.1, hout]
      exact length_join_dropLast outs
    rw [join_cons] at hfuel hroom ⊢
    rw [List.length_cons, List.length_append] at hfuel hroom
    cases fuel with
    | zero => exact absurd hfuel (by omega)
    | succ fuel =>
      rw [dedotLoop, if_pos (show rfc3986.sep = 0x2f from rfl),
        slashTurn_seg hseg (atEnd_join segs)]
      have hfinish : ∀ {buf : Dynbuf} {kept : List Bytes},
          buf.content = join rfc3986 kept → buf.content.length ≤ out.content.length →
          buf.toobig = out.toobig → seg ≠ [] →
          (buf.nappend [0x2f] true).2 = .ok ∧
            (buf.nappend [0x2f] true).1.content = join rfc3986 (kept ++ [[]]) := by
        intro buf kept hbuf hlen htoobig hne
        exact addSlash hbuf (by rw [htoobig]; omega)
      by_cases hdot : rfc3986.dot seg = true
      · have hne : seg ≠ [] := fun hnil => by
          rw [hnil, rfc3986.dot_nil] at hdot
          cases hdot
        rw [if_pos hdot]
        cases segs with
        | nil =>
          obtain ⟨hok, hcontent⟩ := hfinish hout (Nat.le_refl _) rfl hne
          refine ⟨(out.nappend [0x2f] true).1, ?_, ?_⟩
          · exact congrArg some (Prod.ext rfl hok)
          · rw [hcontent, resolve, if_pos hdot]
        | cons next segs =>
          rw [if_neg (show join rfc3986 (next :: segs) ≠ [] from List.cons_ne_nil _ _),
            resolve_cons_cons, if_pos hdot]
          have hroom' : out.content.length + (join rfc3986 (next :: segs)).length + 1 ≤
              out.toobig := by omega
          exact ih hrest houts hout (by omega) hroom'
      · rw [if_neg hdot]
        by_cases hdotdot : rfc3986.dotdot seg = true
        · have hne : seg ≠ [] := fun hnil => by
            rw [hnil, rfc3986.dotdot_nil] at hdotdot
            cases hdotdot
          rw [if_pos hdotdot]
          cases segs with
          | nil =>
            obtain ⟨hok, hcontent⟩ := hfinish htrim.1 htrimlen htrim.2 hne
            refine ⟨((trimSegment out).nappend [0x2f] true).1, ?_, ?_⟩
            · exact congrArg some (Prod.ext rfl hok)
            · rw [hcontent, resolve, if_neg hdot, if_pos hdotdot]
          | cons next segs =>
            rw [if_neg (show join rfc3986 (next :: segs) ≠ [] from List.cons_ne_nil _ _),
            resolve_cons_cons, if_neg hdot, if_pos hdotdot]
            have hroom' : (trimSegment out).content.length +
                (join rfc3986 (next :: segs)).length + 1 ≤ (trimSegment out).toobig := by
              rw [htrim.2]
              omega
            exact ih hrest houts.dropLast htrim.1 (by omega) hroom'
        · rw [if_neg hdotdot]
          have hfits : [(0x2f : UInt8)].length + out.content.length + 1 ≤ out.toobig := by
            rw [List.length_singleton]
            omega
          obtain ⟨hok, hcontent, htoobig⟩ := Dynbuf.nappend_ok hfits
          have hfuel1 : (seg ++ join rfc3986 segs).length ≤ fuel := by
            rw [List.length_append]
            omega
          have hroom1 : (out.nappend [0x2f] true).1.content.length +
              (seg ++ join rfc3986 segs).length + 1 ≤ (out.nappend [0x2f] true).1.toobig := by
            rw [hcontent, htoobig, List.length_append, List.length_append, List.length_singleton]
            omega
          obtain ⟨fuel', out', hloop, hfuel', hcontent', htoobig'⟩ :=
            dedotLoop_copy hseg hfuel1 hroom1
          have hkept : out'.content = join rfc3986 (outs ++ [seg]) := by
            rw [hcontent', hcontent, hout, join_concat, List.append_assoc]
            rfl
          have hlen := congrArg List.length hcontent'
          rw [hcontent, List.length_append, List.length_append, List.length_singleton] at hlen
          obtain ⟨out2, hrun, hresult⟩ := ih hrest (houts.concat hseg) hkept hfuel'
            (by rw [htoobig', htoobig]; omega)
          refine ⟨out2, ?_, ?_⟩
          · dsimp only
            rw [show rfc3986.sep = 0x2f from rfl, if_pos hok, hloop, hrun]
          · rw [hresult, resolve_keep hdot hdotdot]

/-- `dedotdotify` is `remove_dot_segments` on every path that starts with a slash; where it has no
output (`/` alone) the path stays what it is. -/
theorem dedotdotify_eq (rest : Bytes) :
    ∃ outp, dedotdotify (0x2f :: rest) = some (0, outp) ∧
      outp.getD (0x2f :: rest) = removeDotSegments (0x2f :: rest) := by
  cases rest with
  | nil => exact ⟨none, rfl, (remove_sep (S := rfc3986) []).symm⟩
  | cons c rest =>
    obtain ⟨seg, segs, hfree, hpath⟩ := exists_join (S := rfc3986) (c :: rest)
    have hpath' : (0x2f : UInt8) :: c :: rest = join rfc3986 (seg :: segs) := hpath
    have hlen := congrArg List.length hpath'
    rw [List.length_cons] at hlen
    have hfuel : (join rfc3986 (seg :: segs)).length ≤ ((0x2f : UInt8) :: c :: rest).length := by
      rw [hpath']
    have hnone : Free rfc3986 [] := nofun
    have hroom : (Dynbuf.init ((0x2f :: c :: rest).length + 1)).content.length +
        (join rfc3986 (seg :: segs)).length + 1 ≤
        (Dynbuf.init ((0x2f :: c :: rest).length + 1)).toobig := by
      change 0 + _ + 1 ≤ (c :: rest).length + 1 + 1
      omega
    obtain ⟨out, hloop, hcontent⟩ := dedotLoop_join hfree hnone rfl hfuel hroom
    refine ⟨some out.content, ?_, ?_⟩
    · rw [dedotdotify, if_neg (by rw [List.length_cons, List.length_cons]; omega)]
      have hskip : skipLeadingDots (0x2f :: c :: rest) = some (0x2f :: c :: rest) := rfl
      rw [← hpath'] at hloop
      dsimp only
      rw [hskip]
      dsimp only
      rw [hloop]
      rfl
    · rw [removeDotSegments, hpath', Option.getD_some, hcontent]
      exact (remove_join hnone hfree).symm

/-- What `dedotdotify` leaves of a path that starts with a slash. -/
theorem dedotdotify_spec (path : Bytes) (h : path.head? = some 0x2f) :
    ∃ outp, dedotdotify path = some (0, outp) ∧
      outp.getD path = removeDotSegments path ∧
      NoDots rfc3986 (outp.getD path) ∧
      (outp.getD path).head? = some 0x2f ∧
      (outp.getD path).length ≤ path.length ∧
      ∃ outp', dedotdotify (outp.getD path) = some (0, outp') ∧
        outp'.getD (outp.getD path) = outp.getD path := by
  obtain ⟨rest, rfl⟩ : ∃ rest, path = 0x2f :: rest := by
    cases path with
    | nil => cases h
    | cons c rest =>
      cases h
      exact ⟨rest, rfl⟩
  obtain ⟨outp, hrun, hout⟩ := dedotdotify_eq rest
  have hspec := remove_spec (S := rfc3986) rest
  obtain ⟨hdots, hhead, hlen, hagain⟩ :
      NoDots rfc3986 (removeDotSegments (0x2f :: rest)) ∧
        (removeDotSegments (0x2f :: rest)).head? = some 0x2f ∧
        (removeDotSegments (0x2f :: rest)).length ≤ rest.length + 1 ∧
        removeDotSegments (removeDotSegments (0x2f :: rest)) =
          removeDotSegments (0x2f :: rest) := hspec
  refine ⟨outp, hrun, hout, ?_⟩
  rw [hout]
  refine ⟨hdots, hhead, hlen, ?_⟩
  obtain ⟨rest', hrest'⟩ : ∃ rest', removeDotSegments (0x2f :: rest) = 0x2f :: rest' := by
    cases hr : removeDotSegments (0x2f :: rest) with
    | nil =>
      rw [hr] at hhead
      cases hhead
    | cons c rest' =>
      rw [hr] at hhead
      cases hhead
      exact ⟨rest', rfl⟩
  rw [hrest'] at hagain ⊢
  obtain ⟨outp', hrun', hout'⟩ := dedotdotify_eq rest'
  exact ⟨outp', hrun', by rw [hout', hagain]⟩

/-- `/a/%2e%2E/b` gives `/b`. -/
theorem dedotdotify_sample :
    ∃ outp, dedotdotify [0x2f, 0x61, 0x2f, 0x25, 0x32, 0x65, 0x25, 0x32, 0x45, 0x2f, 0x62] =
        some (0, outp) ∧ outp.getD [] = [0x2f, 0x62] := by
  have hrun : dedotdotify [0x2f, 0x61, 0x2f, 0x25, 0x32, 0x65, 0x25, 0x32, 0x45, 0x2f, 0x62] =
      some (0, some [0x2f, 0x62]) := by decide +kernel
  obtain ⟨outp, hout, -⟩ := dedotdotify_spec
    [0x2f, 0x61, 0x2f, 0x25, 0x32, 0x65, 0x25, 0x32, 0x45, 0x2f, 0x62] rfl
  rw [hrun] at hout
  cases hout
  exact ⟨_, hrun, rfl⟩

end Gurl.Urlapi
