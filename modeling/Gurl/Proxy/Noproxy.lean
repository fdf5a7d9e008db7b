import Gurl.Lib.BitPrefix
import Gurl.Vtls.Hostcheck

/-! `proxy_check_noproxy` of `lib/proxy.c`: is the host in the list of hosts that need no proxy? A
read outside of a string is `none`. -/

namespace Gurl.Proxy

open Strcase Strparse Inet

/-- `s[i]`, where the terminating zero may be read too. -/
def readAt (s : Bytes) (i : Nat) : Option UInt8 :=
  if i ≤ s.length then some (s.getD i 0) else none

/-- `s[n - i]` for unsigned numbers. -/
def readBack (s : Bytes) (n i : Nat) : Option UInt8 := if i ≤ n then readAt s (n - i) else none

/-- `s + i`. -/
def pointer (s : Bytes) (i : Nat) : Option Bytes :=
  if i ≤ s.length then some (s.drop i) else none

/-- `memcpy` of `n` bytes of a string. -/
def copy (s : Bytes) (n : Nat) : Option Bytes :=
  if n ≤ s.length then some (s.take n) else none

/-- `ISBLANK`. -/
def isBlank (c : UInt8) : Bool := c == 32 || c == 9

/-- `curlx_str_passblanks`. -/
def passblanks (p : Bytes) : Bytes := p.dropWhile isBlank

/-- `htonl`, of an `unsigned int` that is kept in these bytes. -/
def htonl (bytes : Bytes) : Nat := BigEndian.value bytes

/-- `cidr4_match`. -/
def cidr4Match (ipv4 network : Bytes) (bits : Nat) : Bool :=
  if bits > 32 then false
  else
    let (result, address) := inetPton .inet ipv4 (List.replicate 4 0)
    if result ≠ 1 then false
    else
      let (result, check) := inetPton .inet network (List.replicate 4 0)
      if result ≠ 1 then false
      else if bits ≠ 0 ∧ bits ≠ 32 then
        let mask := (0xffffffff <<< (32 - bits)) % 2 ^ 32
        (htonl address ^^^ htonl check) &&& mask == 0
      else address == check

/-- `cidr6_match`. -/
def cidr6Match (ipv6 network : Bytes) (bits : Nat) : Bool :=
  let bits := if bits = 0 then 128 else bits
  let bytes := bits / 8
  let rest := bits &&& 0x07
  if bytes > 16 || (bytes == 16 && rest != 0) then false
  else
    let (result, address) := inetPton .inet6 ipv6 (List.replicate 16 0)
    if result ≠ 1 then false
    else
      let (result, check) := inetPton .inet6 network (List.replicate 16 0)
      if result ≠ 1 then false
      else if bytes ≠ 0 ∧ address.take bytes ≠ check.take bytes then false
      else if rest ≠ 0 ∧ ((address.getD bytes 0).toNat ^^^ (check.getD bytes 0).toNat) &&&
          (0xff <<< (8 - rest)) ≠ 0 then false
      else true

inductive NameType where
  | host | ipv4 | ipv6
  deriving DecidableEq

/-- `match_host`. -/
def matchHost (token : Bytes) (tokenlen : Nat) (name : Bytes) (namelen : Nat) :
    Option Bool := do
  let tokenlen := if (← readBack token tokenlen 1) = 46 then tokenlen - 1 else tokenlen
  let (token, tokenlen) ←
    if tokenlen ≠ 0 then do
      if (← readAt token 0) =
        46 then pure (← pointer token 1, tokenlen - 1) else pure (token, tokenlen)
    else pure (token, tokenlen)
  if tokenlen = namelen then return strnequal token name namelen
  else if tokenlen < namelen then
    if (← readBack name (namelen - tokenlen) 1) = 46 then
      return strnequal token (← pointer name (namelen - tokenlen)) tokenlen
    else return false
  else return false

/-- `match_ip`. -/
def matchIp (type : NameType) (token : Bytes) (tokenlen : Nat) (name : Bytes) :
    Option Bool := do
  if tokenlen ≥ 128 then return false
  let checkip ← copy token tokenlen
  let (checkip, bits) ←
    if 47 ∈ checkip then
      match strNumber (checkip.dropWhile (· ≠ 47)).tail 128 with
      | .ok (value, []) => pure (checkip.takeWhile (· ≠ 47), value)
      | _ => return false
    else pure (checkip, 0)
  if type = .ipv6 then return cidr6Match name checkip bits
  else return cidr4Match name checkip bits

/-- The bytes of a pattern. -/
def inPattern (c : UInt8) : Bool := !isBlank c && c != 44

/-- The loop of `proxy_check_noproxy`; `p` is what is left of the list. -/
def noproxyLoop (type : NameType) (name : Bytes) (namelen : Nat) (p : Bytes) :
    Option Bool :=
  if p = [] then some false
  else
    let token := passblanks p
    let tokenlen := (token.takeWhile inPattern).length
    let matched :=
      if tokenlen ≠ 0 then
        if type = .host then matchHost token tokenlen name namelen
        else matchIp type token tokenlen name
      else some false
    match matched with
    | none => none
    | some true => some true
    | some false =>
      let rest := passblanks (token.drop tokenlen)
      if rest.head? = some 44 then
        noproxyLoop type name namelen (rest.dropWhile (· = 44))
      else some false
termination_by p.length
decreasing_by
  rename_i hcomma
  have hdrop : rest.length ≤ p.length :=
    ((List.dropWhile_sublist _).trans ((List.drop_sublist _ _).trans
      (List.dropWhile_sublist _))).length_le
  have hrest : rest.dropWhile (· = 44) = rest.tail.dropWhile (· = 44) := by
    cases hcase : rest with
    | nil => rfl
    | cons c r =>
      rw [hcase] at hcomma
      obtain rfl : c = 44 := Option.some.inj hcomma
      rfl
  have hle : (rest.tail.dropWhile (· = 44)).length ≤ rest.tail.length :=
    (List.dropWhile_sublist _).length_le
  have hne : rest ≠ [] := fun h => by simp [h] at hcomma
  have hpos := List.length_pos_of_ne_nil hne
  rw [hrest]
  rw [List.length_tail] at hle
  omega

/-- `proxy_check_noproxy`, for strings that are there. -/
def proxyCheckNoproxy (name noProxy : Bytes) : Option Bool :=
  if name = [] then some false
  else if noProxy ≠ [] then
    if noProxy = [42] then some true
    else if (inetPton .inet name (List.replicate 4 0)).1 = 1 then
      noproxyLoop .ipv4 name name.length noProxy
    else if (inetPton .inet6 name (List.replicate 16 0)).1 = 1 then
      noproxyLoop .ipv6 name name.length noProxy
    else do
      let namelen := if (← readBack name name.length 1) = 46 then name.length - 1 else name.length
      noproxyLoop .host name namelen noProxy
  else some false

/-! ### What the list says -/

/-- The text has blanks around it at most. -/
def Clean (part : Bytes) : Prop :=
  ∃ front word back, part = front ++ word ++ back ∧ (∀ c ∈ front, isBlank c = true) ∧
    (∀ c ∈ word, isBlank c = false) ∧ ∀ c ∈ back, isBlank c = true

/-- The first word of a text. -/
def FirstWord (part word : Bytes) : Prop :=
  ∃ front rest, part = front ++ word ++ rest ∧ word ≠ [] ∧ (∀ c ∈ front, isBlank c = true) ∧
    (∀ c ∈ word, isBlank c = false) ∧ ∀ c ∈ rest.head?, isBlank c = true

/-- The tokens of a list: its words between commas, as far as there is but one word between
commas. -/
def Token (noProxy word : Bytes) : Prop :=
  ∃ before part after, noProxy.splitOn 44 = before ++ part :: after ∧ (∀ p ∈ before, Clean p) ∧
    FirstWord part word

/-- A token without a dot at its end and one in front. -/
def trimDots (token : Bytes) : Bytes :=
  if (Vtls.undotted token).head? = some 46 then (Vtls.undotted token).tail else Vtls.undotted token

/-- The name is the domain, or in it. -/
def InDomain (name domain : Bytes) : Prop :=
  upper name = upper domain ∨
    ∃ front back, name = front ++ 46 :: back ∧ upper back = upper domain

/-- A token that is an address, or an address and how many of its bits count. -/
inductive Network (addr : Bytes → Bytes → Prop) :
    Bytes → Option Nat → Bytes → Prop
  | plain {t bytes : Bytes} : addr t bytes → Network addr t none bytes
  | bits {t bytes ds : Bytes} : addr t bytes → (∀ c ∈ ds, isDigit c = true) → ds ≠ [] →
      Network addr (t ++ 47 :: ds) (some (decimal ds)) bytes

variable {p part tail w word name token noProxy : Bytes} {c : UInt8} {type : NameType}

/-! ### The tokens -/

/-- The first word, or nothing. -/
def wordOf (part : Bytes) : Bytes := (passblanks part).takeWhile (!isBlank ·)

/-- What is behind the first word and the blanks around it. -/
def behind (part : Bytes) : Bytes := passblanks ((passblanks part).dropWhile (!isBlank ·))

theorem passblanks_append (h : ∀ c ∈ p, isBlank c = true) (q : Bytes) :
    passblanks (p ++ q) = passblanks q := List.dropWhile_append_of_pos h

theorem passblanks_self (h : ∀ c ∈ p.head?, isBlank c = false) : passblanks p = p := by
  cases p with
  | nil => rfl
  | cons c p =>
    apply List.dropWhile_cons_of_neg
    rw [h c rfl]
    decide

theorem passblanks_nil (h : ∀ c ∈ p, isBlank c = true) : passblanks p = [] :=
  List.dropWhile_eq_nil_iff.mpr h

/-- The parts of a text. -/
theorem part_split (part : Bytes) :
    ∃ front back, part = front ++ wordOf part ++ back ∧ (∀ c ∈ front, isBlank c = true) ∧
      (∀ c ∈ wordOf part, isBlank c = false) ∧ (∀ c ∈ back.head?, isBlank c = true) ∧
      passblanks back = behind part := by
  refine ⟨part.takeWhile isBlank, (passblanks part).dropWhile (!isBlank ·), ?_,
    fun c hc => List.mem_takeWhile_imp hc, fun c hc => ?_, fun c hc => ?_, rfl⟩
  · rw [List.append_assoc, wordOf, List.takeWhile_append_dropWhile, passblanks,
      List.takeWhile_append_dropWhile]
  · simpa using List.mem_takeWhile_imp hc
  · have hnot := List.head?_dropWhile_not (!isBlank ·) (passblanks part)
    rw [Option.mem_def.mp hc] at hnot
    simpa using hnot

theorem behind_subset (part : Bytes) : behind part ⊆ part :=
  ((List.dropWhile_sublist _).trans ((List.dropWhile_sublist _).trans
    (List.dropWhile_sublist _))).subset

theorem firstWord_iff : FirstWord part w ↔ w = wordOf part ∧ w ≠ [] := by
  constructor
  · rintro ⟨front, rest, rfl, hne, hfront, hw, hrest⟩
    have hhead : ∀ c ∈ (w ++ rest).head?, isBlank c = false := by
      obtain ⟨c, w, rfl⟩ := List.exists_cons_of_ne_nil hne
      rintro d ⟨⟩
      exact hw c List.mem_cons_self
    refine ⟨?_, hne⟩
    rw [wordOf, List.append_assoc, passblanks_append hfront, passblanks_self hhead,
      List.takeWhile_append_of_pos fun c hc => by rw [hw c hc]; rfl]
    have hstop : rest.takeWhile (!isBlank ·) = [] := by
      cases rest with
      | nil => rfl
      | cons c rest => exact List.takeWhile_cons_of_neg (by rw [hrest c rfl]; decide)
    rw [hstop, List.append_nil]
  · rintro ⟨rfl, hne⟩
    obtain ⟨front, back, hpart, hfront, hword, hback, -⟩ := part_split part
    exact ⟨front, back, hpart, hne, hfront, hword, hback⟩

theorem clean_iff : Clean part ↔ behind part = [] := by
  constructor
  · rintro ⟨front, word, back, rfl, hfront, hword, hback⟩
    rw [behind, List.append_assoc, passblanks_append hfront]
    by_cases hne : word = []
    · rw [hne, List.nil_append, passblanks_nil hback]
      rfl
    · have hhead : ∀ c ∈ (word ++ back).head?, isBlank c = false := by
        obtain ⟨c, word, rfl⟩ := List.exists_cons_of_ne_nil hne
        rintro d ⟨⟩
        exact hword c List.mem_cons_self
      rw [passblanks_self hhead, List.dropWhile_append_of_pos fun c hc => by rw [hword c hc]; rfl]
      exact passblanks_nil fun c hc => hback c ((List.dropWhile_sublist _).subset hc)
  · intro h
    obtain ⟨front, back, hpart, hfront, hword, -, hback⟩ := part_split part
    exact ⟨front, wordOf part, back, hpart, hfront, hword,
      List.dropWhile_eq_nil_iff.mp (hback.trans h)⟩

theorem token_alone (h : 44 ∉ part) : Token part w ↔ FirstWord part w := by
  rw [Token, List.splitOn_eq_singleton h]
  constructor
  · rintro ⟨before, q, after, hsplit, -, hw⟩
    cases before with
    | nil =>
      obtain ⟨rfl, -⟩ := List.cons.inj hsplit
      exact hw
    | cons b before =>
      obtain ⟨-, habs⟩ := List.cons.inj hsplit
      exact absurd habs (by simp)
  · exact fun h => ⟨[], part, [], rfl, nofun, h⟩

theorem token_comma (h : 44 ∉ part) (more : Bytes) :
    Token (part ++ 44 :: more) w ↔ FirstWord part w ∨ (Clean part ∧ Token more w) := by
  rw [Token, List.splitOn_append_cons_self_of_not_mem h]
  constructor
  · rintro ⟨before, q, after, hsplit, hclean, hw⟩
    cases before with
    | nil =>
      obtain ⟨rfl, -⟩ := List.cons.inj hsplit
      exact .inl hw
    | cons b before =>
      obtain ⟨rfl, hrest⟩ := List.cons.inj hsplit
      exact .inr ⟨hclean part List.mem_cons_self, before, q, after, hrest,
        fun p hp => hclean p (List.mem_cons_of_mem _ hp), hw⟩
  · rintro (hw | ⟨hpart, before, q, after, hsplit, hclean, hw⟩)
    · exact ⟨[], part, _, rfl, nofun, hw⟩
    · refine ⟨part :: before, q, after, congrArg _ hsplit, fun p hp => ?_, hw⟩
      obtain rfl | hp := List.mem_cons.mp hp
      · exact hpart
      · exact hclean p hp

/-- What ends a part: the end of the list, or a comma. -/
def Ends (tail : Bytes) : Prop := ∀ c ∈ tail.head?, c = 44

theorem passblanks_tail (htail : Ends tail) (p : Bytes) :
    passblanks (p ++ tail) = passblanks p ++ tail := by
  rw [passblanks, List.dropWhile_append]
  split
  · rename_i hempty
    rw [passblanks, List.isEmpty_iff.mp hempty]
    exact passblanks_self fun c hc => by rw [htail c hc]; rfl
  · rfl

/-- What the loop reads of a part. -/
theorem scan_part (h : 44 ∉ part) (htail : Ends tail) :
    (passblanks (part ++ tail)).takeWhile inPattern = wordOf part ∧
      passblanks ((passblanks (part ++ tail)).drop (wordOf part).length) = behind part ++ tail := by
  have hsplit : passblanks part = wordOf part ++ (passblanks part).dropWhile (!isBlank ·) :=
    List.takeWhile_append_dropWhile.symm
  have hword : ∀ c ∈ wordOf part, inPattern c = true := by
    intro c hc
    have hblank := List.mem_takeWhile_imp hc
    have hmem : c ∈ part := (List.dropWhile_sublist _).subset ((List.takeWhile_sublist _).subset hc)
    have hcomma : c ≠ 44 := fun heq => h (heq ▸ hmem)
    simp only [inPattern, Bool.and_eq_true, bne_iff_ne]
    exact ⟨hblank, hcomma⟩
  have hstop : ((passblanks part).dropWhile (!isBlank ·) ++ tail).takeWhile inPattern = [] := by
    have hnot := List.head?_dropWhile_not (!isBlank ·) (passblanks part)
    cases hback : (passblanks part).dropWhile (!isBlank ·) with
    | nil =>
      cases tail with
      | nil => rfl
      | cons c tail => exact List.takeWhile_cons_of_neg (by rw [htail c rfl]; decide)
    | cons c back =>
      rw [hback] at hnot
      apply List.takeWhile_cons_of_neg
      rw [inPattern, Bool.and_eq_true]
      exact fun hc => absurd hc.1 (by simpa using hnot)
  rw [passblanks_tail htail]
  constructor
  · rw [hsplit, List.append_assoc, List.takeWhile_append_of_pos hword, hstop, List.append_nil]
  · nth_rewrite 1 [hsplit]
    rw [List.append_assoc, List.drop_left, passblanks_tail htail]
    rfl

/-- The tokens of a list: the first, and behind a comma those of the rest. -/
theorem token_step (p : Bytes) :
    Token p w ↔ ((passblanks p).takeWhile inPattern = w ∧ w ≠ []) ∨
      ∃ r, passblanks ((passblanks p).drop ((passblanks p).takeWhile inPattern).length) = 44 :: r ∧
        Token r w := by
  by_cases hcomma : 44 ∈ p
  · obtain ⟨part, more, rfl, hpart⟩ := List.eq_append_cons_of_mem hcomma
    obtain ⟨hword, hrest⟩ := @scan_part part (44 :: more) hpart fun c hc =>
      (Option.some.inj hc).symm
    rw [token_comma hpart, hword, hrest, firstWord_iff, clean_iff, eq_comm (a := w)]
    apply or_congr Iff.rfl
    constructor
    · rintro ⟨hclean, hmore⟩
      exact ⟨more, by rw [hclean]; rfl, hmore⟩
    · rintro ⟨r, hr, hmore⟩
      cases hbehind : behind part with
      | nil =>
        rw [hbehind] at hr
        obtain ⟨-, rfl⟩ := List.cons.inj hr
        exact ⟨rfl, hmore⟩
      | cons c back =>
        rw [hbehind] at hr
        obtain ⟨rfl, -⟩ := List.cons.inj hr
        exact absurd (behind_subset part (hbehind ▸ List.mem_cons_self)) hpart
  · obtain ⟨hword, hrest⟩ := @scan_part p [] hcomma nofun
    rw [List.append_nil] at hword hrest
    rw [token_alone hcomma, hword, hrest, firstWord_iff, eq_comm (a := w)]
    constructor
    · exact .inl
    · rintro (h | ⟨r, hr, -⟩)
      · exact h
      · rw [List.append_nil] at hr
        exact absurd (behind_subset p (hr ▸ List.mem_cons_self)) hcomma

theorem token_pass (p : Bytes) : Token (p.dropWhile (· = 44)) w ↔ Token p w := by
  induction p with
  | nil => exact Iff.rfl
  | cons c p ih =>
    by_cases hc : c = 44
    · rw [hc, List.dropWhile_cons_of_pos (by decide), ih, token_step (44 :: p)]
      constructor
      · exact fun h => .inr ⟨p, rfl, h⟩
      · rintro (⟨rfl, hne⟩ | ⟨r, hr, h⟩)
        · exact absurd rfl hne
        · obtain ⟨-, rfl⟩ := List.cons.inj hr
          exact h
    · rw [List.dropWhile_cons_of_neg (by simpa using hc)]

/-- The loop finds the first token that matches, when each can be asked about. -/
theorem noproxyLoop_spec {namelen : Nat} {M : Bytes → Prop}
    (hmatch : ∀ token word : Bytes, word ≠ [] → token.take word.length = word →
      ∃ r, (if type = .host then matchHost token word.length name namelen
        else matchIp type token word.length name) = some r ∧ (r = true ↔ M word))
    (p : Bytes) :
    ∃ r, noproxyLoop type name namelen p = some r ∧ (r = true ↔ ∃ w, Token p w ∧ M w) := by
  induction hlen : p.length using Nat.strongRecOn generalizing p with
  | ind n ih =>
    have hempty : ¬∃ w, Token [] w ∧ M w := by
      rintro ⟨w, hw, -⟩
      rw [token_step] at hw
      obtain ⟨rfl, hne⟩ | ⟨r, hr, -⟩ := hw
      · exact hne rfl
      · cases hr
    rw [noproxyLoop]
    by_cases hp : p = []
    · subst hp
      exact ⟨false, rfl, iff_of_false Bool.false_ne_true hempty⟩
    · rw [if_neg hp]
      have htoken := fun w => @token_step w p
      have htake : (passblanks p).take ((passblanks p).takeWhile inPattern).length =
          (passblanks p).takeWhile inPattern :=
        (List.prefix_iff_eq_take.mp (List.takeWhile_prefix _)).symm
      have hshort : (passblanks ((passblanks p).drop
          ((passblanks p).takeWhile inPattern).length)).length ≤ p.length :=
        ((List.dropWhile_sublist _).trans ((List.drop_sublist _ _).trans
          (List.dropWhile_sublist _))).length_le
      dsimp only
      generalize (passblanks p).takeWhile inPattern = word at htoken htake hshort ⊢
      generalize passblanks ((passblanks p).drop word.length) = rest at htoken hshort ⊢
      obtain ⟨m, hm, hiff⟩ : ∃ m, (if word.length ≠ 0 then
            if type = .host then matchHost (passblanks p) word.length name namelen
            else matchIp type (passblanks p) word.length name
          else some false) = some m ∧ (m = true ↔ word ≠ [] ∧ M word) := by
        by_cases hne : word = []
        · exact ⟨false, if_neg (by simp [hne]), iff_of_false Bool.false_ne_true fun h => h.1 hne⟩
        · obtain ⟨m, hm, hiff⟩ := hmatch (passblanks p) word hne htake
          refine ⟨m, ?_, hiff.trans (and_iff_right hne).symm⟩
          rw [if_pos (by simpa using hne)]
          exact hm
      rw [hm]
      cases m with
      | true =>
        obtain ⟨hne, hM⟩ := hiff.mp rfl
        exact ⟨true, rfl, iff_of_true rfl ⟨word, (htoken word).mpr (.inl ⟨rfl, hne⟩), hM⟩⟩
      | false =>
        have hnot : ¬(word ≠ [] ∧ M word) := fun h => Bool.false_ne_true (hiff.mpr h)
        dsimp only
        by_cases hcomma : rest.head? = some 44
        · obtain ⟨more, rfl⟩ : ∃ r, rest = 44 :: r :=
            ⟨rest.tail, (List.cons_head?_tail hcomma).symm⟩
          have hless : ((44 :: more : Bytes).dropWhile (· = 44)).length < n := by
            rw [List.dropWhile_cons_of_pos (by decide)]
            have hle : (more.dropWhile (· = 44)).length ≤ more.length :=
              (List.dropWhile_sublist _).length_le
            rw [List.length_cons] at hshort
            omega
          obtain ⟨r, hr, hfound⟩ := ih _ hless _ rfl
          rw [if_pos hcomma]
          refine ⟨r, hr, hfound.trans ?_⟩
          constructor
          · rintro ⟨w, hw, hM⟩
            rw [List.dropWhile_cons_of_pos (by decide), token_pass] at hw
            exact ⟨w, (htoken w).mpr (.inr ⟨more, rfl, hw⟩), hM⟩
          · rintro ⟨w, hw, hM⟩
            obtain ⟨rfl, hne⟩ | ⟨r, hr, hw⟩ := (htoken w).mp hw
            · exact absurd ⟨hne, hM⟩ hnot
            · obtain ⟨-, rfl⟩ := List.cons.inj hr
              refine ⟨w, ?_, hM⟩
              rwa [List.dropWhile_cons_of_pos (by decide), token_pass]
        · rw [if_neg hcomma]
          refine ⟨false, rfl, iff_of_false Bool.false_ne_true ?_⟩
          rintro ⟨w, hw, hM⟩
          obtain ⟨rfl, hne⟩ | ⟨r, hr, -⟩ := (htoken w).mp hw
          · exact hnot ⟨hne, hM⟩
          · exact hcomma (by rw [hr]; rfl)

end Gurl.Proxy
