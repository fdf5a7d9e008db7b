import Gurl.Lib.Lines
import Gurl.Doh.Decode

/-! `doh_req_encode` of `lib/doh.c`, with a check of every write, and how the name in its output is
read again. -/

namespace Gurl.Doh

/-- `DOH_MAX_DNSREQ_SIZE`. -/
def dohMaxDnsreqSize : Nat := 256 + 16

/-- Write bytes behind those that are there, in a buffer of `len` bytes. -/
def put (len : Nat) (out bytes : Bytes) : Option Bytes :=
  if out.length + bytes.length ≤ len then some (out ++ bytes) else none

/-- The loop over the labels; `hostp` is what is left of the name. -/
def labelsLoop (len : Nat) : Nat → Bytes → Bytes → Option (Dohcode × Bytes)
  | 0, _, _ => none
  | fuel + 1, hostp, out =>
    if hostp = [] then some (.ok, out)
    else
      let label := hostp.takeWhile (· != 46)
      if label.length > 63 ∨ label.length = 0 then some (.dnsBadLabel, out)
      else do
        let out ← put len out (.ofNat label.length :: label)
        -- past the dot, if there is one
        labelsLoop len fuel ((hostp.drop label.length).drop 1) out

/-- The length that `doh_req_encode` expects. -/
def expectedLen (host : Bytes) : Nat :=
  12 + 1 + host.length + 4 + if host.getLast? = some 46 then 0 else 1

/-- The result, what is in the buffer, and what was assigned to `olen`. -/
structure Request where
  rc : Dohcode
  written : Bytes
  olen : Option Nat
  deriving DecidableEq

/-- The header of a request: one question, with the RD bit. -/
def requestHeader : Bytes := [0, 0, 0x01, 0, 0, 1, 0, 0, 0, 0, 0, 0]

/-- The type and the class behind the name. -/
def typeAndClass (dnstype : Dnstype) : Bytes :=
  [.ofNat (255 &&& (dnstype.toNat >>> 8)), .ofNat (255 &&& dnstype.toNat), 0, .ofNat dnsClassIn]

/-- `doh_req_encode` for a buffer of `len` bytes. -/
def reqEncode (host : Bytes) (dnstype : Dnstype) (len : Nat) : Option Request :=
  if expectedLen host > dohMaxDnsreqSize then some ⟨.dnsNameTooLong, [], none⟩
  else if len < expectedLen host then some ⟨.tooSmallBuffer, [], none⟩
  else do
    let out ← put len [] requestHeader
    match ← labelsLoop len (host.length + 1) host out with
    | (.ok, out) =>
      let out ← put len out (0 :: typeAndClass dnstype)
      some ⟨.ok, out, some out.length⟩
    | (rc, out) => some ⟨rc, out, some 0⟩

/-- A host name without its trailing dot. -/
def nameOf (host : Bytes) : Bytes :=
  if host.getLast? = some 46 then host.dropLast else host

def labelsOf (host : Bytes) : List Bytes := (nameOf host).splitOn 46

example : reqEncode (("a.bc.".toList).map fun c => .ofNat c.toNat) .https 22 =
    some ⟨.ok, requestHeader ++ [1, 97, 2, 98, 99, 0, 0, 65, 0, 1], some 22⟩ := by decide

/-! ### Labels -/

variable {host out pre post label : Bytes} {labels : List Bytes} {len fuel : Nat}
  {dotted : Bool}

/-- A label that can be sent. -/
def GoodLabel (l : Bytes) : Prop := 1 ≤ l.length ∧ l.length ≤ 63

/-- A label with its length. -/
def wireLabel (l : Bytes) : Bytes := .ofNat l.length :: l

/-- A name with these labels, and a dot behind it or not. -/
def joined (labels : List Bytes) (dotted : Bool) : Bytes :=
  [46].intercalate labels ++ if dotted then [46] else []

theorem joined_labelsOf (host : Bytes) :
    host = joined (labelsOf host) (decide (host.getLast? = some 46)) := by
  rw [joined, labelsOf, List.intercalate_splitOn, nameOf]
  by_cases hdot : host.getLast? = some 46
  · rw [if_pos hdot, decide_eq_true hdot, if_pos rfl]
    obtain ⟨ys, rfl⟩ := List.getLast?_eq_some_iff.mp hdot
    rw [List.dropLast_concat]
  · rw [if_neg hdot, decide_eq_false hdot, if_neg Bool.false_ne_true, List.append_nil]

/-- An empty last label makes a dot at the end. -/
theorem intercalate_last (hne : labels ≠ []) :
    ([46].intercalate (labels ++ [[]]) : Bytes).getLast? = some 46 := by
  induction labels with
  | nil => exact absurd rfl hne
  | cons l ls ih =>
    cases ls with
    | nil => simp [List.intercalate_cons_cons]
    | cons l' ls =>
      have hlast := ih (List.cons_ne_nil l' ls)
      rw [List.cons_append, List.cons_append, List.intercalate_cons_cons, ← List.cons_append,
        List.getLast?_append, hlast]
      rfl

/-- What is left of a name: labels, with something in the last one or a dot behind it. -/
structure Left (labels : List Bytes) (dotted : Bool) : Prop where
  nonempty : labels ≠ []
  dotless : ∀ l ∈ labels, 46 ∉ l
  last : dotted = false → labels.getLast? ≠ some []

theorem left_labelsOf (hhost : host ≠ []) :
    Left (labelsOf host) (decide (host.getLast? = some 46)) where
  nonempty := List.splitOn_ne_nil 46 _
  dotless := Lines.notMem_splitOn 46 _
  last := by
    intro hdot hlast
    have hnot : ¬ host.getLast? = some 46 := of_decide_eq_false hdot
    obtain ⟨ls, hls⟩ := List.getLast?_eq_some_iff.mp hlast
    have hhost' := joined_labelsOf host
    rw [hdot, joined, hls, if_neg Bool.false_ne_true, List.append_nil] at hhost'
    cases ls with
    | nil => exact hhost hhost'
    | cons l ls => exact hnot (hhost' ▸ intercalate_last (List.cons_ne_nil l ls))

theorem joined_singleton (l : Bytes) (dotted : Bool) :
    joined [l] dotted = l ++ if dotted then [46] else [] := by
  simp [joined]

theorem joined_cons (l l' : Bytes) (ls : List Bytes) (dotted : Bool) :
    joined (l :: l' :: ls) dotted = l ++ 46 :: joined (l' :: ls) dotted := by
  simp [joined, List.intercalate_cons_cons]

/-- A label in front of the end of the name, or of a dot. -/
theorem takeWhile_label {l rest : Bytes} (hl : 46 ∉ l)
    (hrest : rest = [] ∨ ∃ r, rest = 46 :: r) : (l ++ rest).takeWhile (· != 46) = l := by
  have hall : ∀ c ∈ l, (c != 46) = true := fun c hc => bne_iff_ne.mpr fun h => hl (h ▸ hc)
  rw [List.takeWhile_append_of_pos hall]
  obtain rfl | ⟨r, rfl⟩ := hrest
  · exact List.append_nil l
  · exact List.append_nil l

/-- A label of the loop: it is refused, or it is written. -/
theorem labelsLoop_step (fuel : Nat) {l rest : Bytes} (hl : 46 ∉ l)
    (hrest : rest = [] ∨ ∃ r, rest = 46 :: r) (hne : l ++ rest ≠ [])
    (hroom : out.length + (l.length + 1) ≤ len) :
    ¬ GoodLabel l ∧ labelsLoop len (fuel + 1) (l ++ rest) out = some (.dnsBadLabel, out) ∨
      GoodLabel l ∧ labelsLoop len (fuel + 1) (l ++ rest) out =
        labelsLoop len fuel (rest.drop 1) (out ++ wireLabel l) := by
  rw [labelsLoop, if_neg hne]
  dsimp only
  rw [takeWhile_label hl hrest, List.drop_left]
  by_cases hbad : l.length > 63 ∨ l.length = 0
  · left
    rw [if_pos hbad]
    refine ⟨fun hgood => ?_, rfl⟩
    obtain ⟨h1, h2⟩ := hgood
    omega
  · right
    refine ⟨⟨by omega, by omega⟩, ?_⟩
    rw [if_neg hbad, put, if_pos (by simpa using hroom)]
    rfl

/-- The loop writes all labels if they are good. -/
theorem labelsLoop_spec (h : Left labels dotted) (hfuel : (joined labels dotted).length < fuel)
    (hroom : out.length + (joined labels dotted).length + (if dotted then 0 else 1) ≤ len) :
    ∃ rc written, labelsLoop len fuel (joined labels dotted) out = some (rc, written) ∧
      (rc = .ok ↔ ∀ l ∈ labels, GoodLabel l) ∧
      (rc = .ok → written = out ++ labels.flatMap wireLabel) := by
  obtain ⟨fuel, rfl⟩ : ∃ k, fuel = k + 1 := ⟨fuel - 1, by omega⟩
  induction labels generalizing fuel out with
  | nil => exact absurd rfl h.nonempty
  | cons l ls ih =>
    have hl : 46 ∉ l := h.dotless l List.mem_cons_self
    cases ls with
    | nil =>
      rw [joined_singleton] at hfuel hroom ⊢
      have hne : l ++ (if dotted then [46] else []) ≠ [] := by
        cases dotted with
        | true => simp
        | false =>
          intro hnil
          rw [if_neg Bool.false_ne_true, List.append_nil] at hnil
          exact h.last rfl (by rw [hnil]; rfl)
      have hend : (if dotted then [46] else [] : Bytes).drop 1 = [] := by
        cases dotted
        all_goals rfl
      have hfits : out.length + (l.length + 1) ≤ len := by
        cases dotted
        all_goals
          simp at hroom
          omega
      have hlong : 0 < fuel := by
        have := List.length_pos_iff.mpr hne
        omega
      obtain ⟨fuel, rfl⟩ : ∃ k, fuel = k + 1 := ⟨fuel - 1, by omega⟩
      obtain ⟨hbad, hloop⟩ | ⟨hgood, hloop⟩ := labelsLoop_step (fuel + 1) hl
        (by cases dotted with | true => exact .inr ⟨[], rfl⟩ | false => exact .inl rfl) hne hfits
      · exact ⟨_, _, hloop, by simpa using hbad, nofun⟩
      · rw [hend] at hloop
        exact ⟨_, _, hloop, by simpa using hgood, fun _ => by simp⟩
    | cons l' ls =>
      rw [joined_cons] at hfuel hroom ⊢
      have hleft : Left (l' :: ls) dotted :=
        ⟨List.cons_ne_nil _ _, fun m hm => h.dotless m (List.mem_cons_of_mem _ hm), fun hd => by
          have := h.last hd
          rwa [List.getLast?_cons_cons] at this⟩
      rw [List.length_append, List.length_cons] at hfuel hroom
      obtain ⟨hbad, hloop⟩ | ⟨hgood, hloop⟩ := labelsLoop_step fuel hl
        (.inr ⟨joined (l' :: ls) dotted, rfl⟩) (by simp)
          (by omega : out.length + (l.length + 1) ≤ len)
      · exact ⟨_, _, hloop, ⟨nofun, fun hall => absurd (hall l List.mem_cons_self) hbad⟩, nofun⟩
      · obtain ⟨fuel, rfl⟩ : ∃ k, fuel = k + 1 := ⟨fuel - 1, by omega⟩
        have hroom' : (out ++ wireLabel l).length + (joined (l' :: ls) dotted).length +
            (if dotted then 0 else 1) ≤ len := by
          rw [List.length_append, wireLabel, List.length_cons]
          omega
        obtain ⟨rc, written, hrest, hiff, htext⟩ := ih hleft hroom' fuel (by omega)
        refine ⟨rc, written, hloop.trans hrest, ?_, fun hok => ?_⟩
        · rw [hiff]
          simp [hgood]
        · rw [htext hok, List.append_assoc]
          rfl

/-! ### Reading the name again -/

theorem length_byte : ∀ n < 64, (UInt8.ofNat n).toNat = n ∧ UInt8.ofNat n &&& 0xc0 = 0 ∧
    (UInt8.ofNat n = 0 ↔ n = 0) := by
  decide

theorem GoodLabel.byte (h : GoodLabel label) : (UInt8.ofNat label.length).toNat = label.length ∧
    UInt8.ofNat label.length &&& 0xc0 = 0 ∧ UInt8.ofNat label.length ≠ 0 := by
  obtain ⟨h1, h2⟩ := h
  obtain ⟨htoNat, hbits, hzero⟩ := length_byte label.length (by omega)
  exact ⟨htoNat, hbits, fun h => by have := hzero.mp h; omega⟩

theorem getElem?_mid (pre post : Bytes) (c : UInt8) :
    (pre ++ c :: post)[pre.length]? = some c := by
  rw [List.getElem?_append_right (Nat.le_refl _), Nat.sub_self]
  rfl

theorem wireLabel_append (l rest : Bytes) :
    wireLabel l ++ rest = UInt8.ofNat l.length :: (l ++ rest) := rfl

/-- Skipping labels. -/
theorem skipqnameLoop_labels (pre post : Bytes) (hgood : ∀ l ∈ labels, GoodLabel l)
    (hfuel : labels.length < fuel) :
    skipqnameLoop (pre ++ (labels.flatMap wireLabel ++ 0 :: post)) fuel pre.length =
      some (.ok, pre.length + (labels.flatMap wireLabel).length + 1) := by
  obtain ⟨fuel, rfl⟩ : ∃ k, fuel = k + 1 := ⟨fuel - 1, by omega⟩
  induction labels generalizing pre fuel with
  | nil =>
    have hin : ¬ (pre ++ 0 :: post).length < pre.length + 1 := by simp
    rw [List.flatMap_nil, List.nil_append, skipqnameLoop, if_neg hin, getElem?_mid]
    change (if (pre ++ 0 :: post).length < pre.length + 1 + 0 then _ else _) = _
    rw [if_neg hin]
    rfl
  | cons l ls ih =>
    obtain ⟨htoNat, hbits, hzero⟩ := (hgood l List.mem_cons_self).byte
    rw [List.flatMap_cons, List.append_assoc]
    have hnext :=
      ih (pre ++ wireLabel l) (fun m hm => hgood m (List.mem_cons_of_mem _ hm)) (fuel - 1)
      (by rw [List.length_cons] at hfuel; omega)
    rw [List.append_assoc] at hnext
    generalize hrest : ls.flatMap wireLabel ++ 0 :: post = rest at hnext ⊢
    have hpointer : ¬ UInt8.ofNat l.length &&& 0xc0 = 0xc0 := by
      rw [hbits]
      decide
    have hlong : (pre ++ wireLabel l).length = pre.length + (1 + l.length) := by
      rw [List.length_append, wireLabel, List.length_cons]
      omega
    have hin : ¬ (pre ++ (wireLabel l ++ rest)).length < pre.length + 1 + l.length := by
      rw [← List.append_assoc, List.length_append, hlong]
      omega
    have hfuel' : fuel - 1 + 1 = fuel := by
      rw [List.length_cons] at hfuel
      omega
    rw [skipqnameLoop, if_neg (by omega), wireLabel_append, getElem?_mid, ← wireLabel_append]
    simp only [Option.bind_eq_bind, Option.bind_some]
    rw [if_neg hpointer, if_neg (not_not.mpr hbits), htoNat, if_neg hin, if_pos hzero, ← hlong,
      ← hfuel', hnext, hlong, List.length_append, wireLabel, List.length_cons]
    congr 2
    omega

/-- A name to which labels are added, with dots in between. -/
def addLabels (name : Bytes) (labels : List Bytes) : Bytes :=
  labels.foldl (fun name l => (if name.length ≠ 0 then name ++ [46] else name) ++ l) name

theorem addLabels_length (name : Bytes) (labels : List Bytes) :
    name.length ≤ (addLabels name labels).length := by
  induction labels generalizing name with
  | nil => exact Nat.le_refl _
  | cons l ls ih =>
    refine Nat.le_trans ?_ (ih _)
    rw [List.length_append]
    split
    · rw [List.length_append]
      omega
    · omega

theorem addLabels_ne_nil {name : Bytes} (hname : name ≠ []) (l : Bytes)
    (labels : List Bytes) :
    addLabels name (l :: labels) = name ++ 46 :: [46].intercalate (l :: labels) := by
  induction labels generalizing name l with
  | nil => simp [addLabels, hname]
  | cons l' ls ih =>
    have hlength : name.length ≠ 0 := mt List.length_eq_zero_iff.mp hname
    have hnext := ih (show name ++ [46] ++ l ≠ [] by simp) l'
    rw [addLabels, List.foldl_cons, if_pos hlength]
    refine hnext.trans ?_
    rw [List.intercalate_cons_cons]
    simp

/-- From nothing, the name is the one with these labels. -/
theorem addLabels_nil (hgood : ∀ l ∈ labels, GoodLabel l) :
    addLabels [] labels = [46].intercalate labels := by
  cases labels with
  | nil => rfl
  | cons l ls =>
    have hl : l ≠ [] := by
      rintro rfl
      exact absurd (hgood [] List.mem_cons_self).1 (by decide)
    cases ls with
    | nil => simp [addLabels]
    | cons l' ls =>
      have hnext := addLabels_ne_nil hl l' ls
      rw [List.intercalate_cons_cons]
      refine Eq.trans ?_ (hnext.trans ?_)
      · rfl
      · simp

theorem bytesAt_label (pre rest l : Bytes) :
    bytesAt (pre ++ (wireLabel l ++ rest)) (pre.length + 1) l.length = some l := by
  have hlength : pre.length + 1 + l.length ≤ (pre ++ (wireLabel l ++ rest)).length := by
    simp [wireLabel]
    omega
  have hdrop : (pre ++ (wireLabel l ++ rest)).drop (pre.length + 1) = l ++ rest := by
    rw [← List.drop_drop, List.drop_left]
    rfl
  rw [bytesAt, if_pos hlength, hdrop, List.take_left]

/-- Storing labels that fit. -/
theorem storeCnameLoop_labels (pre post : Bytes) (c : Dynbuf) {loop : Nat}
    (hgood : ∀ l ∈ labels, GoodLabel l) (hloop : labels.length < loop)
    (hroom : (addLabels c.content labels).length + 1 ≤ c.toobig) :
    ∃ c', storeCnameLoop (pre ++ (labels.flatMap wireLabel ++ 0 :: post)) loop pre.length c =
        some (c', .ok) ∧ c'.content = addLabels c.content labels := by
  obtain ⟨loop, rfl⟩ : ∃ k, loop = k + 1 := ⟨loop - 1, by omega⟩
  induction labels generalizing pre c loop with
  | nil =>
    have hin : ¬ pre.length ≥ (pre ++ 0 :: post).length := by simp
    rw [List.flatMap_nil, List.nil_append, storeCnameLoop, if_neg hin, getElem?_mid]
    exact ⟨c, rfl, rfl⟩
  | cons l ls ih =>
    obtain ⟨htoNat, hbits, hzero⟩ := (hgood l List.mem_cons_self).byte
    have hpointer : ¬ UInt8.ofNat l.length &&& 0xc0 = 0xc0 := by
      rw [hbits]
      decide
    obtain ⟨loop, rfl⟩ : ∃ k, loop = k + 1 :=
      ⟨loop - 1, by rw [List.length_cons] at hloop; omega⟩
    -- the dot
    have hall : ((if c.content.length ≠ 0 then c.content ++ [46] else c.content) ++ l).length + 1 ≤
        c.toobig := Nat.le_trans (Nat.succ_le_succ (addLabels_length _ ls)) hroom
    obtain ⟨d, hdot, hd, htoobig⟩ : ∃ d,
        (if c.content.length ≠ 0 then c.nappend [46] true else (c, .ok)) = (d, .ok) ∧
        d.content = (if c.content.length ≠ 0 then c.content ++ [46] else c.content) ∧
        d.toobig = c.toobig := by
      by_cases hc : c.content.length ≠ 0
      · rw [if_pos hc] at hall ⊢
        rw [if_pos hc]
        rw [List.length_append, List.length_append] at hall
        have hfits : ([46] : Bytes).length + c.content.length + 1 ≤ c.toobig := by
          rw [List.length_singleton] at hall ⊢
          omega
        obtain ⟨hok, hcontent, htoobig⟩ := Dynbuf.nappend_ok hfits
        exact ⟨_, Prod.ext rfl hok, hcontent, htoobig⟩
      · rw [if_neg hc, if_neg hc]
        exact ⟨c, rfl, rfl, rfl⟩
    rw [← hd, List.length_append, ← htoobig] at hall
    have hlabel : l.length + d.content.length + 1 ≤ d.toobig := by omega
    obtain ⟨hok, hcontent, htoobig'⟩ := Dynbuf.nappend_ok hlabel
    obtain ⟨e, he⟩ : ∃ e, d.nappend l true = (e, .ok) := ⟨_, Prod.ext rfl hok⟩
    rw [he] at hcontent htoobig'
    dsimp only at hcontent htoobig'
    have hadd : addLabels c.content (l :: ls) = addLabels e.content ls := by
      rw [hcontent, hd]
      rfl
    rw [hadd, ← htoobig, ← htoobig'] at hroom
    obtain ⟨c', hnext, hc'⟩ := ih (pre ++ wireLabel l) e
      (fun m hm => hgood m (List.mem_cons_of_mem _ hm)) hroom loop
      (by rw [List.length_cons] at hloop; omega)
    refine ⟨c', ?_, hc'.trans hadd.symm⟩
    rw [List.flatMap_cons, List.append_assoc]
    rw [List.append_assoc] at hnext
    generalize ls.flatMap wireLabel ++ 0 :: post = rest at hnext ⊢
    have hlong : (pre ++ wireLabel l).length = pre.length + 1 + l.length := by
      rw [List.length_append, wireLabel, List.length_cons]
      omega
    have hin : ¬ pre.length + 1 + l.length > (pre ++ (wireLabel l ++ rest)).length := by
      rw [← List.append_assoc, List.length_append, hlong]
      omega
    have hbytes := bytesAt_label pre rest l
    rw [storeCnameLoop, if_neg (by omega), wireLabel_append, getElem?_mid, ← wireLabel_append]
    simp only [Option.bind_eq_bind, Option.bind_some]
    rw [if_neg hpointer, if_neg (not_not.mpr hbits), if_neg hzero, hdot]
    dsimp only
    rw [htoNat, if_neg hin, hbytes]
    simp only [Option.bind_some]
    rw [he]
    dsimp only
    rw [← hlong]
    exact hnext

/-! ### The request -/

theorem nameOf_length (host : Bytes) :
    (nameOf host).length + (if host.getLast? = some 46 then 1 else 0) = host.length := by
  rw [nameOf]
  by_cases hdot : host.getLast? = some 46
  · obtain ⟨ys, rfl⟩ := List.getLast?_eq_some_iff.mp hdot
    rw [if_pos hdot, if_pos hdot, List.dropLast_concat, List.length_append]
    rfl
  · rw [if_neg hdot, if_neg hdot]
    rfl

/-- How many bytes the labels take. -/
theorem flatMap_wireLabel_length (hne : labels ≠ []) :
    (labels.flatMap wireLabel).length = ([46].intercalate labels : Bytes).length + 1 := by
  induction labels with
  | nil => exact absurd rfl hne
  | cons l ls ih =>
    cases ls with
    | nil => simp [wireLabel]
    | cons l' ls =>
      rw [List.flatMap_cons, List.length_append, ih (List.cons_ne_nil _ _),
        List.intercalate_cons_cons]
      simp only [wireLabel, List.length_append, List.length_cons, List.length_nil]
      omega

theorem labels_length_le (hgood : ∀ l ∈ labels, GoodLabel l) :
    2 * labels.length ≤ (labels.flatMap wireLabel).length := by
  induction labels with
  | nil => exact Nat.le_refl _
  | cons l ls ih =>
    have hl := (hgood l List.mem_cons_self).1
    have hls := ih fun m hm => hgood m (List.mem_cons_of_mem _ hm)
    rw [List.flatMap_cons, List.length_append, wireLabel, List.length_cons, List.length_cons]
    omega

/-- The name and the type and class of a request, as the functions that read an answer find them. -/
structure ReadsBack (out : Bytes) (dnstype : Dnstype) (name : Bytes) : Prop where
  skip : ∃ index, skipqname out 12 = some (.ok, index) ∧
    get16bit out index = some dnstype.toNat ∧ get16bit out (index + 2) = some dnsClassIn ∧
    index + 4 = out.length
  store : ∃ c, storeCname out 12 deInit = some ({ deInit with cname := [c] }, .ok) ∧
    c.content = name

theorem get16bit_mid (pre post : Bytes) (b0 b1 : UInt8) :
    get16bit (pre ++ b0 :: b1 :: post) pre.length = some (b0.toNat * 2 ^ 8 + b1.toNat) := by
  have hsecond : (pre ++ b0 :: b1 :: post)[pre.length + 1]? = some b1 := by
    have hmid := getElem?_mid (pre ++ [b0]) post b1
    rwa [List.append_assoc, List.length_append] at hmid
  rw [get16bit, getElem?_mid, hsecond]
  rfl

theorem readsBack_request (dnstype : Dnstype) (hgood : ∀ l ∈ labels, GoodLabel l)
    (hlength : (labels.flatMap wireLabel).length ≤ 255)
    (hname : ([46].intercalate labels : Bytes).length ≤ 255) :
    ReadsBack (requestHeader ++ (labels.flatMap wireLabel ++ 0 :: typeAndClass dnstype)) dnstype
      ([46].intercalate labels) := by
  have hcount := labels_length_le hgood
  have hheader : requestHeader.length = 12 := rfl
  generalize hwire : labels.flatMap wireLabel = wire at hlength hcount
  have hout : requestHeader ++ (wire ++ 0 :: typeAndClass dnstype) =
      (requestHeader ++ wire ++ [0]) ++ typeAndClass dnstype := by simp
  have hindex : (requestHeader ++ wire ++ [0]).length = 12 + wire.length + 1 := by
    simp [hheader, Nat.add_assoc]
  have hlong : (requestHeader ++ (wire ++ 0 :: typeAndClass dnstype)).length =
      12 + wire.length + 1 + 4 := by
    rw [hout, List.length_append, hindex]
    rfl
  constructor
  · have hskip := skipqnameLoop_labels requestHeader (typeAndClass dnstype) hgood
      (by omega : labels.length < (requestHeader ++ (wire ++ 0 :: typeAndClass dnstype)).length + 1)
    rw [hwire, hheader] at hskip
    refine ⟨12 + wire.length + 1, hskip, ?_, ?_, by rw [hlong]⟩
    · have htype := get16bit_mid (requestHeader ++ wire ++ [0]) [0, .ofNat dnsClassIn]
        (.ofNat (255 &&& (dnstype.toNat >>> 8))) (.ofNat (255 &&& dnstype.toNat))
      rw [hindex] at htype
      rw [hout]
      refine htype.trans ?_
      cases dnstype
      all_goals rfl
    · have hclass := get16bit_mid (requestHeader ++ wire ++ [0] ++
        [.ofNat (255 &&& (dnstype.toNat >>> 8)), .ofNat (255 &&& dnstype.toNat)]) [] 0
        (.ofNat dnsClassIn)
      rw [List.length_append, hindex, List.append_assoc] at hclass
      rw [hout]
      exact hclass
  · have hadd := addLabels_nil hgood
    have hroom : (addLabels (Dynbuf.init dynDohCname).content labels).length + 1 ≤
        (Dynbuf.init dynDohCname).toobig := by
      change (addLabels [] labels).length + 1 ≤ 256
      rw [hadd]
      omega
    obtain ⟨c, hstore, hc⟩ := storeCnameLoop_labels requestHeader (typeAndClass dnstype)
      (.init dynDohCname) hgood (by omega : labels.length < 128) hroom
    refine ⟨c, ?_, hc.trans hadd⟩
    rw [hwire, hheader] at hstore
    rw [storeCname, if_neg (by decide), hstore]
    rfl

/-- The request is encoded if every label has 1 to 63 bytes and the length fits, nothing is written
outside of the buffer, and an encoded request has the expected length, with the name, the type and
the class IN in it. -/
theorem reqEncode_encodes (hhost : host ≠ []) (dnstype : Dnstype) (len : Nat) :
    ∃ r, reqEncode host dnstype len = some r ∧
      (r.rc = .ok ↔ (∀ l ∈ labelsOf host, GoodLabel l) ∧ expectedLen host ≤ dohMaxDnsreqSize ∧
        expectedLen host ≤ len) ∧
      (r.rc = .ok → r.olen = some (expectedLen host) ∧ r.written.length = expectedLen host ∧
        ReadsBack r.written dnstype (nameOf host)) := by
  rw [reqEncode]
  by_cases htooLong : expectedLen host > dohMaxDnsreqSize
  · rw [if_pos htooLong]
    exact ⟨_, rfl, ⟨nofun, fun h => absurd h.2.1 (Nat.not_le.mpr htooLong)⟩, nofun⟩
  rw [if_neg htooLong]
  by_cases hsmall : len < expectedLen host
  · rw [if_pos hsmall]
    exact ⟨_, rfl, ⟨nofun, fun h => absurd h.2.2 (Nat.not_le.mpr hsmall)⟩, nofun⟩
  rw [if_neg hsmall]
  have hheader : requestHeader.length = 12 := rfl
  have hjoined := joined_labelsOf host
  have hlabels := flatMap_wireLabel_length (left_labelsOf hhost).nonempty
  have hname : [46].intercalate (labelsOf host) = nameOf host := List.intercalate_splitOn 46
  have hlength := nameOf_length host
  have hexpected : expectedLen host = 12 + 1 + host.length + 4 +
      if host.getLast? = some 46 then 0 else 1 := rfl
  rw [hname] at hlabels
  have hwire : 12 + (labelsOf host |>.flatMap wireLabel).length + 5 = expectedLen host := by
    rw [hexpected, hlabels]
    by_cases hdot : host.getLast? = some 46
    · rw [if_pos hdot] at hlength ⊢
      omega
    · rw [if_neg hdot] at hlength ⊢
      omega
  have hfirst : put len [] requestHeader = some requestHeader :=
    if_pos (by simp only [List.length_nil, hheader]; omega)
  have hfuel : (joined (labelsOf host) (decide (host.getLast? = some 46))).length <
    host.length + 1 := by
    rw [← hjoined]
    omega
  have hroom : requestHeader.length + (joined (labelsOf host)
      (decide (host.getLast? = some 46))).length +
      (if decide (host.getLast? = some 46) then 0 else 1) ≤ len := by
    rw [← hjoined, hheader]
    simp only [decide_eq_true_eq]
    omega
  obtain ⟨rc, written, hloop, hiff, hwritten⟩ := labelsLoop_spec (left_labelsOf hhost) hfuel hroom
  rw [← hjoined] at hloop
  rw [hfirst]
  simp only [Option.bind_eq_bind, Option.bind_some, hloop]
  by_cases hok : rc = .ok
  · have hgood := hiff.mp hok
    obtain rfl := hok
    obtain rfl := hwritten rfl
    have hlast : put len (requestHeader ++ (labelsOf host).flatMap wireLabel)
      (0 :: typeAndClass dnstype) =
        some (requestHeader ++
          ((labelsOf host).flatMap wireLabel ++ 0 :: typeAndClass dnstype)) := by
      rw [put, if_pos, List.append_assoc]
      rw [List.length_append, hheader]
      change 12 + _ + 5 ≤ len
      omega
    have hall : (requestHeader ++ ((labelsOf host).flatMap wireLabel ++
        0 :: typeAndClass dnstype)).length = expectedLen host := by
      rw [List.length_append, List.length_append, hheader, ← hwire, Nat.add_assoc]
      rfl
    dsimp only
    rw [hlast]
    have hmax : dohMaxDnsreqSize = 272 := rfl
    refine ⟨_, rfl, ⟨fun _ => ⟨hgood, by omega, by omega⟩, fun _ => rfl⟩, fun _ => ⟨?_, hall, ?_⟩⟩
    · rw [← hall]
    · rw [← hname]
      exact readsBack_request dnstype hgood (by omega) (by rw [hname]; omega)
  · refine ⟨⟨rc, written, some 0⟩, ?_, ⟨fun h => absurd h hok, fun h => absurd (hiff.mpr h.1) hok⟩,
      fun h => absurd h hok⟩
    cases rc
    case ok => exact absurd rfl hok
    all_goals rfl

/-- A name with a trailing dot, in a buffer that it fills. -/
theorem reqEncode_encodes_dot : ∃ r,
    reqEncode [97, 46, 98, 99, 46] .aaaa 22 = some r ∧ r.rc = .ok ∧ r.written.length = 22 ∧
      ReadsBack r.written .aaaa [97, 46, 98, 99] := by
  obtain ⟨r, hr, hiff, hok⟩ := reqEncode_encodes (List.cons_ne_nil 97 [46, 98, 99, 46]) .aaaa 22
  have hlabels : labelsOf [97, 46, 98, 99, 46] = [[97], [98, 99]] := by decide
  have hrc : r.rc = .ok := by
    apply hiff.mpr
    rw [hlabels]
    simp [GoodLabel, expectedLen, dohMaxDnsreqSize]
  exact ⟨r, hr, hrc, (hok hrc).2.1, (hok hrc).2.2⟩

end Gurl.Doh
