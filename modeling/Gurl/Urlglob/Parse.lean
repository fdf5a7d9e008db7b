import Gurl.Urlglob.Reading

/-! `glob_parse` ends, and what it accepts is a sequence of literals and expressions. -/

namespace Gurl.Urlglob

variable {env : Env} {p rest : Bytes}

/-! ### Every part is shorter than the pattern -/

theorem ReadsLiteral.length_le {value : Bytes} (h : ReadsLiteral env p value rest) :
    value.length + rest.length ≤ p.length := by
  induction h with
  | nil h => simp
  | plain _ _ _ ih =>
    simp only [List.length_cons]
    omega
  | escaped _ _ ih =>
    simp only [List.length_cons]
    omega
  | brackets _ _ ih =>
    simp only [List.length_append]
    omega

theorem ReadsLiteral.ends {value : Bytes} (h : ReadsLiteral env p value rest) :
    LiteralEnd env rest := by
  induction h with
  | nil h => exact h
  | plain _ _ _ ih => exact ih
  | escaped _ _ ih => exact ih
  | brackets _ _ ih => exact ih

theorem ReadsLiteral.eq_nil (h : ReadsLiteral env p [] rest) : p = rest := by
  generalize hvalue : ([] : Bytes) = value at h
  cases h with
  | nil h => rfl
  | plain => cases hvalue
  | escaped => cases hvalue
  | brackets ht h =>
    cases ht with
    | host => cases hvalue
    | empty => cases hvalue

theorem ReadsElem.length_le {value : Bytes} (h : ReadsElem p value rest) :
    rest.length ≤ p.length := by
  induction h with
  | nil h => exact Nat.le_refl _
  | plain _ _ _ _ ih =>
    rw [List.length_cons]
    omega
  | escaped _ ih =>
    simp only [List.length_cons]
    omega

theorem ReadsElems.length_lt {elems : List Bytes} (h : ReadsElems p elems rest) :
    rest.length < p.length := by
  induction h with
  | last h =>
    have := h.length_le
    rw [List.length_cons] at this
    omega
  | cons h _ ih =>
    have := h.length_le
    rw [List.length_cons] at this
    omega

theorem ReadsStep.length_lt {step : Nat} (h : ReadsStep p step rest) : rest.length < p.length := by
  cases h with
  | one => simp
  | given =>
    simp only [List.length_append, List.length_cons]
    omega

theorem ReadsExpr.length_lt {set : Bool} {item : Item} (h : ReadsExpr set p item rest) :
    rest.length < p.length := by
  cases h with
  | set h => exact h.length_lt
  | letters _ h =>
    have := h.length_lt
    simp only [List.length_cons]
    omega
  | numbers _ _ _ h =>
    have := h.length_lt
    simp only [List.length_append]
    omega

theorem ReadsName.length_le (h : ReadsName p rest) : rest.length ≤ p.length := by
  cases h with
  | named =>
    simp only [List.length_append, List.length_cons]
    omega
  | unnamed => exact Nat.le_refl _

/-! ### The loop -/

theorem addGlob_ok {glob glob' : URLGlob} {pat : URLPattern} {pos : Nat}
    (h : addGlob glob pat pos = .ok glob') :
    glob'.pattern = glob.pattern ++ [pat] ∧ glob'.buf = glob.buf ∧
      glob'.beenhere = glob.beenhere := by
  simp only [addGlob] at h
  split at h
  · split at h
    · cases h
      exact ⟨rfl, rfl, rfl⟩
    · cases h
  · cases h
    exact ⟨rfl, rfl, rfl⟩

/-- A glob between two parts of a pattern. -/
structure Idle (glob : URLGlob) : Prop where
  content : glob.buf.content = []
  toobig : glob.buf.toobig = maxConfigLineLength
  beenhere : glob.beenhere = false

theorem Idle.added {glob glob' : URLGlob} {buf : Dynbuf} {pat : URLPattern} {pos : Nat}
    (h : Idle glob) (hcontent : buf.content = []) (htoobig : buf.toobig = glob.buf.toobig)
    (hadd : addGlob { glob with buf } pat pos = .ok glob') : Idle glob' := by
  obtain ⟨-, hbuf, hbeen⟩ := addGlob_ok hadd
  refine ⟨?_, ?_, hbeen.trans h.beenhere⟩
  · rw [hbuf]
    exact hcontent
  · rw [hbuf]
    exact htoobig.trans h.toobig

/-- How many strings a part stands for. -/
def Item.count (item : Item) : Nat := item.choices.length

/-- The parser has read the parts of a pattern. -/
structure Parsed (env : Env) (glob : URLGlob) (p : Bytes) (amount : Nat) (glob' : URLGlob) (n : Nat)
    (items : List Item) : Prop where
  reads : Reads env p items
  start : glob'.pattern.map (·.c) = glob.pattern.map (·.c) ++ items.map Item.start
  count : n = amount * (items.map Item.count).prod
  count_le : n ≤ curlOffTMax
  idle : Idle glob'

/-- One more part in front. -/
theorem Parsed.cons {glob glob1 glob' : URLGlob} {amount amount1 n : Nat} {items : List Item}
    {item : Item} {pat : URLPattern} (h : Parsed env glob1 rest amount1 glob' n items)
    (hpattern : glob1.pattern = glob.pattern ++ [pat]) (hstart : pat.c = item.start)
    (hamount : amount1 = amount * item.count) (hreads : Reads env p (item :: items)) :
    Parsed env glob p amount glob' n (item :: items) where
  reads := hreads
  start := by
    rw [h.start, hpattern, List.map_append, List.append_assoc, List.map_singleton, hstart]
    rfl
  count := by rw [h.count, hamount, List.map_cons, List.prod_cons, Nat.mul_assoc]
  count_le := h.count_le
  idle := h.idle

/-- What reading an expression with its name gives. -/
def NamedRead (set : Bool) (p : Bytes) (amount : Nat) (glob : URLGlob) (rest : Bytes)
    (amount' : Nat) (glob' : URLGlob) : Prop :=
  ∃ p' item pat, ReadsName p p' ∧ ReadsExpr set p' item rest ∧ Idle glob' ∧
    glob'.pattern = glob.pattern ++ [pat] ∧ pat.c = item.start ∧ amount' = amount * item.count ∧
    amount' ≤ curlOffTMax

theorem globBehindName_sound {ipattern p' : Bytes} {glob glob' : URLGlob} {set : Bool}
    {name : Option Bytes} {pos amount globindex pos' amount' : Nat} (hidle : Idle glob)
    (hname : ReadsName p p')
    (h : globBehindName env ipattern glob set name p' pos amount globindex =
      .ok (rest, pos', amount', glob')) : NamedRead set p amount glob rest amount' glob' := by
  unfold globBehindName at h
  split at h
  · cases h
  split at h
  · cases h
  rename_i hcall
  split at h
  · cases h
  rename_i hadd
  cases h
  obtain ⟨item, hread⟩ := globExpr_sound hidle.content hcall
  obtain ⟨hpattern, -, -⟩ := addGlob_ok hadd
  exact ⟨p', item, _, hname, hread.reads, hidle.added hread.content hread.toobig hadd, hpattern,
    hread.start, hread.amount_eq, hread.amount_le⟩

theorem globNamed_sound {ipattern : Bytes} {glob glob' : URLGlob} {set : Bool}
    {pos amount globindex pos' amount' : Nat} (hidle : Idle glob)
    (h : globNamed env ipattern glob set p pos amount globindex =
    .ok (rest, pos', amount', glob')) :
    NamedRead set p amount glob rest amount' glob' := by
  unfold globNamed at h
  split at h
  · exact globBehindName_sound hidle (globName_sound ‹_›) h
  · exact globBehindName_sound hidle (globName_none ‹_›) h

/-- The loop ends, and a pattern that it accepts has parts. -/
theorem globParseLoop_spec {ipattern : Bytes} {fuel : Nat} {glob : URLGlob}
    {pos amount globindex : Nat} (hidle : Idle glob) (hfuel : p.length < fuel)
    (hamount : amount ≤ curlOffTMax) :
    ∃ r, globParseLoop env ipattern fuel glob p pos amount globindex = some r ∧
      ∀ glob' n, r = .ok (glob', n) → ∃ items, Parsed env glob p amount glob' n items := by
  induction fuel generalizing glob p pos amount globindex with
  | zero => omega
  | succ fuel ih =>
    rw [globParseLoop]
    by_cases hp : p = []
    · rw [if_pos hp]
      refine ⟨_, rfl, fun glob' n hok => ?_⟩
      cases hok
      exact ⟨[], hp ▸ .nil, by simp, by simp, hamount, hidle⟩
    rw [if_neg hp]
    cases hliteral : literalLoop env 0 p pos glob.buf with
    | error e => exact ⟨_, rfl, fun glob' n hok => by cases hok⟩
    | ok read =>
      obtain ⟨q, pos1, buf⟩ := read
      obtain ⟨value, hvalue, hcontent, htoobig⟩ := literalLoop_sound hliteral
      rw [List.drop_zero] at hvalue
      rw [hidle.content, List.nil_append] at hcontent
      simp only
      by_cases hne : buf.content ≠ []
      · rw [if_pos hne]
        cases hadd : addGlob { glob with buf := buf.reset }
          ⟨none, none, .set [buf.content] 0⟩ pos1 with
        | error e => exact ⟨_, rfl, fun glob' n hok => by cases hok⟩
        | ok glob1 =>
          have hlength := hvalue.length_le
          have hlt : 0 < value.length := List.length_pos_iff.mpr (hcontent ▸ hne)
          obtain ⟨r, hcall, hspec⟩ := @ih q glob1 pos1 amount globindex
            (hidle.added buf.content_reset htoobig hadd) (by omega) hamount
          refine ⟨r, hcall, fun glob' n hok => ?_⟩
          obtain ⟨items, hparsed⟩ := hspec glob' n hok
          refine ⟨.literal value :: items, hparsed.cons (addGlob_ok hadd).1 ?_ ?_
            (.literal hvalue (hcontent ▸ hne) hparsed.reads)⟩
          · rw [hcontent]
            rfl
          · exact (Nat.mul_one amount).symm
      · rw [if_neg hne]
        obtain rfl : value = [] := hcontent ▸ not_not.mp hne
        obtain rfl := hvalue.eq_nil
        have hidle1 : Idle { glob with buf } :=
          ⟨hcontent, htoobig.trans hidle.toobig, hidle.beenhere⟩
        cases p with
        | nil => exact (hp rfl).elim
        | cons c start =>
          have hc : c = 123 ∨ c = 91 := by
            rcases hvalue.ends with hnil | hset | hrange
            · cases hnil
            · exact .inl (Option.some.inj hset)
            · exact .inr (Option.some.inj hrange.1)
          simp only [if_pos hc]
          cases hnamed : globNamed env ipattern { glob with buf } (decide (c = 123)) start
            (pos1 + 1) amount
              globindex with
          | error e => exact ⟨_, rfl, fun glob' n hok => by cases hok⟩
          | ok read =>
            obtain ⟨q, pos2, amount2, glob2⟩ := read
            obtain ⟨p', item, pat, hname, hexpr, hidle2, hpattern, hstart, hcount, hle⟩ :=
              globNamed_sound hidle1 hnamed
            have hlength := hname.length_le
            have hlength' := hexpr.length_lt
            rw [List.length_cons] at hfuel
            obtain ⟨r, hcall, hspec⟩ :=
              @ih q glob2 pos2 amount2 (globindex + 1) hidle2 (by omega) hle
            refine ⟨r, hcall, fun glob' n hok => ?_⟩
            obtain ⟨items, hparsed⟩ := hspec glob' n hok
            refine ⟨item :: items, hparsed.cons hpattern hstart hcount ?_⟩
            rcases hc with rfl | rfl
            · exact .set hname hexpr hparsed.reads
            · exact .range hvalue.ends hname hexpr hparsed.reads

end Gurl.Urlglob
