import Gurl.Inet.Ntop
import Gurl.Proxy.Noproxy

/-! What the tokens of a list of hosts stand for: domains and networks. -/

namespace Gurl.Proxy

open Strcase Strparse Inet Vtls

variable {p word name token noProxy s a b ds t : Bytes} {c : UInt8} {n : Nat} {type : NameType}

/-! ### Host names -/

theorem readAt_word (htake : token.take word.length = word) {i : Nat} (h : i < word.length) :
    readAt token i = some (word.getD i 0) := by
  have hlength := congrArg List.length htake
  rw [List.length_take] at hlength
  rw [readAt, if_pos (by omega), List.getD_eq_getElem?_getD, List.getD_eq_getElem?_getD,
    ← List.getElem?_take_of_lt h, htake]

theorem undotted_prefix (htake : token.take word.length = word) :
    token.take (undotted word).length = undotted word := by
  have hle : (undotted word).length ≤ word.length := by
    have hlength := congrArg List.length (undotted_take word)
    rw [List.length_take] at hlength
    omega
  calc token.take (undotted word).length
      = (token.take word.length).take (undotted word).length := by
        rw [List.take_take, Nat.min_eq_left hle]
    _ = undotted word := by rw [htake, undotted_take]

/-- A domain at the end of a longer name. -/
theorem inDomain_tail {domain : Bytes} (h : domain.length < name.length) :
    InDomain name domain ↔ name.getD (name.length - domain.length - 1) 0 = 46 ∧
      upper (name.drop (name.length - domain.length)) = upper domain := by
  constructor
  · rintro (hsame | ⟨front, back, rfl, hback⟩)
    · have hlength := congrArg List.length hsame
      rw [length_upper, length_upper] at hlength
      omega
    · have hlength := congrArg List.length hback
      rw [length_upper, length_upper] at hlength
      have hdot : (front ++ 46 :: back).length - domain.length - 1 = front.length := by
        rw [List.length_append, List.length_cons]
        omega
      have hrest : (front ++ 46 :: back).length - domain.length = front.length + 1 := by
        rw [List.length_append, List.length_cons]
        omega
      rw [hdot, hrest, ← List.drop_drop, List.drop_left,
        List.getD_append_right _ _ _ _ (Nat.le_refl _), Nat.sub_self]
      exact ⟨rfl, hback⟩
  · rintro ⟨hdot, hback⟩
    have hlt : name.length - domain.length - 1 < name.length := by omega
    refine .inr ⟨name.take (name.length - domain.length - 1),
      name.drop (name.length - domain.length), ?_, hback⟩
    have hcons := List.drop_eq_getElem_cons hlt
    have hget : name[name.length - domain.length - 1] = 46 := by
      rw [List.getD_eq_getElem?_getD, List.getElem?_eq_getElem hlt] at hdot
      exact hdot
    rw [hget, show name.length - domain.length - 1 + 1 = name.length - domain.length by omega]
      at hcons
    rw [← hcons, List.take_append_drop]

/-- The comparisons of `match_host`. -/
theorem domain_spec {domain : Bytes} (hdomain : token.take domain.length = domain)
    (hname : s.take name.length = name) :
    ∃ r, (if domain.length = name.length then some (strnequal token s name.length)
      else if domain.length < name.length then
        (readBack s (name.length - domain.length) 1).bind fun c =>
          if c = 46 then
            (pointer s (name.length - domain.length)).bind fun back =>
              some (strnequal token back domain.length)
          else some false
      else some false) = some r ∧ (r = true ↔ InDomain name domain) := by
  have hnameLength := congrArg List.length hname
  rw [List.length_take] at hnameLength
  by_cases heq : domain.length = name.length
  · rw [if_pos heq]
    refine ⟨_, rfl, ?_⟩
    rw [strnequal_iff, hname, ← heq, hdomain]
    constructor
    · exact fun h => .inl h.symm
    · rintro (h | ⟨front, back, rfl, hback⟩)
      · exact h.symm
      · have hlength := congrArg List.length hback
        rw [length_upper, length_upper] at hlength
        rw [List.length_append, List.length_cons] at heq
        omega
  · rw [if_neg heq]
    by_cases hlt : domain.length < name.length
    · have hback : 1 ≤ name.length - domain.length := by omega
      rw [if_pos hlt, readBack, if_pos hback, readAt_word hname (by omega), Option.bind_some,
        inDomain_tail hlt]
      by_cases hdot : name.getD (name.length - domain.length - 1) 0 = 46
      · rw [if_pos hdot, pointer, if_pos (by omega), Option.bind_some]
        refine ⟨_, rfl, ?_⟩
        have hrest : (s.drop (name.length - domain.length)).take domain.length =
            name.drop (name.length - domain.length) := by
          conv => rhs; rw [← hname]
          rw [List.drop_take, hname, Nat.sub_sub_self (Nat.le_of_lt hlt)]
        rw [strnequal_iff, hdomain, hrest, and_iff_right hdot, eq_comm]
      · rw [if_neg hdot]
        exact ⟨false, rfl, iff_of_false Bool.false_ne_true fun h => hdot h.1⟩
    · rw [if_neg hlt]
      refine ⟨false, rfl, iff_of_false Bool.false_ne_true ?_⟩
      rintro (h | ⟨front, back, rfl, hback⟩)
      · have hlength := congrArg List.length h
        rw [length_upper, length_upper] at hlength
        exact heq hlength.symm
      · have hlength := congrArg List.length hback
        rw [length_upper, length_upper] at hlength
        rw [List.length_append, List.length_cons] at hlt
        omega

/-- `match_host`, for a host name without the dot at its end. -/
theorem matchHost_spec (hne : word ≠ []) (htake : token.take word.length = word)
    (hname : s.take name.length = name) :
    ∃ r, matchHost token word.length s name.length = some r ∧
      (r = true ↔ InDomain name (trimDots word)) := by
  have hpos : 1 ≤ word.length := List.length_pos_of_ne_nil hne
  have hlast : readBack token word.length 1 = some (word.getD (word.length - 1) 0) := by
    rw [readBack, if_pos hpos, readAt_word htake (by omega)]
  have hsame := undotted_prefix htake
  rw [matchHost, hlast, trimDots]
  simp only [Option.bind_eq_bind, Option.bind_some, Option.pure_def, undotted_length hne]
  generalize undotted word = u at hsame ⊢
  cases u with
  | nil =>
    have hdomain := domain_spec hsame hname
    rw [if_neg (show ¬([] : Bytes).length ≠ 0 from not_not_intro rfl)]
    exact hdomain
  | cons c u =>
    obtain ⟨token, rfl⟩ : ∃ r, token = c :: r := by
      cases token with
      | nil => cases hsame
      | cons d token =>
        obtain ⟨rfl, -⟩ := List.cons.inj hsame
        exact ⟨token, rfl⟩
    have hfirst : readAt (c :: token) 0 = some c := rfl
    rw [if_pos (List.length_pos_of_ne_nil (List.cons_ne_nil c u)).ne', hfirst, Option.bind_some]
    by_cases hc : c = 46
    · rw [if_pos hc, if_pos (by rw [hc]; rfl)]
      exact domain_spec (List.cons.inj hsame).2 hname
    · have htrim : (if (c :: u).head? = some 46 then (c :: u).tail else c :: u) = c :: u :=
        if_neg fun h => hc (Option.some.inj h)
      rw [if_neg hc, htrim]
      exact domain_spec hsame hname

/-! ### Addresses -/

/-- The text of an IPv4 or IPv6 address. -/
inductive Literal : NameType → Bytes → Bytes → Prop
  | ipv4 (a b c d : UInt8) : Literal .ipv4 (dottedQuad a b c d) [a, b, c, d]
  | ipv6 {s bytes : Bytes} : TextForm s bytes → Literal .ipv6 s bytes

/-- The bytes of an IPv4 address. -/
def addr4 (s : Bytes) : Option Bytes := pton4Loop [] 0 0 false s

/-- The bytes that `curlx_inet_pton` reads. -/
def addressOf (type : NameType) (s : Bytes) : Option Bytes :=
  match type with
  | .host => none
  | .ipv4 => addr4 s
  | .ipv6 => pton6Bytes s

def Accepted (type : NameType) (s bytes : Bytes) : Prop := addressOf type s = some bytes

def width (type : NameType) : Nat := if type = .ipv6 then 128 else 32

theorem inetPton4_eq (s : Bytes) :
    inetPton .inet s (List.replicate 4 0) =
      match addr4 s with
      | some a => (1, a)
      | none => (0, List.replicate 4 0) := by
  rw [inetPton, inetPton4, addr4]
  cases pton4Loop [] 0 0 false s with
  | none => rfl
  | some a => exact congrArg (Prod.mk 1) (List.append_nil a)

theorem inetPton6_eq (s : Bytes) :
    inetPton .inet6 s (List.replicate 16 0) =
      match pton6Bytes s with
      | some a => (1, a)
      | none => (0, List.replicate 16 0) := by
  rw [inetPton, inetPton6]
  cases pton6Bytes s with
  | none => rfl
  | some a => exact congrArg (Prod.mk 1) (List.append_nil a)

theorem addr4_length (h : addr4 s = some a) : a.length = 4 := by
  obtain ⟨a, b, c, d, -, rfl⟩ := pton4Loop_iff.mp h
  rfl

theorem addr6_length (h : pton6Bytes s = some a) : a.length = 16 := by
  obtain hform | ⟨t, -, hform, -⟩ := form_of_accepted h
  · exact textForm_length hform
  · exact textForm_length hform

/-- There is no slash in an address. -/
theorem addressOf_slash (h : addressOf type s = some a) : 47 ∉ s := by
  intro hmem
  have hip : hostIsIpnum s = true := by
    cases type with
    | host => cases h
    | ipv4 =>
      obtain ⟨a, b, c, d, hquad, -⟩ := pton4Loop_iff.mp h
      exact hostIsIpnum_iff.mpr (.inl ⟨a, b, c, d, hquad⟩)
    | ipv6 => exact hostIsIpnum_iff.mpr (.inr ⟨a, h⟩)
  exact absurd (ipnum_bytes hip 47 hmem) (by decide)

theorem cidr4Match_iff (ipv4 network : Bytes) (bits : Nat) :
    cidr4Match ipv4 network bits = true ↔ bits ≤ 32 ∧ ∃ a b, addr4 ipv4 = some a ∧
      addr4 network = some b ∧ BitPrefix.Agree (if bits = 0 then 32 else bits) a b := by
  rw [cidr4Match]
  by_cases hbits : bits > 32
  · rw [if_pos hbits]
    exact iff_of_false Bool.false_ne_true fun h => by omega
  · rw [if_neg hbits, inetPton4_eq, inetPton4_eq, and_iff_right (show bits ≤ 32 by omega)]
    cases ha : addr4 ipv4 with
    | none => exact iff_of_false Bool.false_ne_true (by rintro ⟨a, b, habs, -⟩; cases habs)
    | some a =>
      cases hb : addr4 network with
      | none => exact iff_of_false Bool.false_ne_true (by rintro ⟨a, b, -, habs, -⟩; cases habs)
      | some b =>
        have hla := addr4_length ha
        have hlb := addr4_length hb
        have hall : BitPrefix.Agree 32 a b ↔ a = b := BitPrefix.agree_all (k := 4) hla hlb
        have hgoal : (∃ a' b', some a = some a' ∧ some b = some b' ∧
            BitPrefix.Agree (if bits = 0 then 32 else bits) a' b') ↔
            BitPrefix.Agree (if bits = 0 then 32 else bits) a b := by simp
        rw [hgoal]
        dsimp only
        rw [if_neg (by decide), if_neg (by decide)]
        by_cases hpart : bits ≠ 0 ∧ bits ≠ 32
        · rw [if_pos hpart, if_neg hpart.1, beq_iff_eq]
          have hmask : ∀ i < 32, ((0xffffffff <<< (32 - bits)) % 2 ^ 32).testBit i =
              decide (32 - bits ≤ i) := by
            intro i hi
            rw [Nat.testBit_mod_two_pow, Nat.testBit_shiftLeft,
              show 0xffffffff = 2 ^ 32 - 1 from rfl, Nat.testBit_two_pow_sub_one]
            simp only [hi, decide_true, Bool.true_and, Bool.and_eq_left_iff_imp, decide_eq_true_eq]
            omega
          have hlt : ∀ x : Bytes, x.length = 4 → htonl x < 2 ^ 32 := by
            intro x hx
            have := BigEndian.value_lt x
            rw [hx] at this
            exact this
          rw [BitPrefix.mask_eq_zero (hlt a hla) (hlt b hlb) (by omega) hmask]
          apply forall₂_congr
          intro i hi
          have hbitA := @BitPrefix.testBit_value a i (by omega)
          have hbitB := @BitPrefix.testBit_value b i (by omega)
          rw [hla] at hbitA
          rw [hlb] at hbitB
          rw [htonl, htonl, hbitA, hbitB]
        · rw [if_neg hpart, show (if bits = 0 then 32 else bits) = 32 by split <;> omega, hall,
            beq_iff_eq]

theorem cidr6Match_iff (ipv6 network : Bytes) (bits : Nat) :
    cidr6Match ipv6 network bits = true ↔ bits ≤ 128 ∧ ∃ a b, pton6Bytes ipv6 = some a ∧
      pton6Bytes network = some b ∧ BitPrefix.Agree (if bits = 0 then 128 else bits) a b := by
  rw [cidr6Match]
  have hle : bits ≤ 128 ↔ (if bits = 0 then 128 else bits) ≤ 128 := by split <;> omega
  rw [hle]
  generalize (if bits = 0 then 128 else bits) = n
  have hrest : n &&& 0x07 = n % 8 := Nat.and_two_pow_sub_one_eq_mod n 3
  dsimp only
  rw [hrest]
  by_cases hbits : n ≤ 128
  · rw [if_neg (by simp; omega), inetPton6_eq, inetPton6_eq, and_iff_right hbits]
    cases ha : pton6Bytes ipv6 with
    | none => exact iff_of_false Bool.false_ne_true (by rintro ⟨a, b, habs, -⟩; cases habs)
    | some a =>
      cases hb : pton6Bytes network with
      | none => exact iff_of_false Bool.false_ne_true (by rintro ⟨a, b, -, habs, -⟩; cases habs)
      | some b =>
        have hla := addr6_length ha
        have hlb := addr6_length hb
        have hgoal : (∃ a' b', some a = some a' ∧ some b = some b' ∧ BitPrefix.Agree n a' b') ↔
            BitPrefix.Agree n a b := by simp
        rw [hgoal]
        dsimp only
        rw [if_neg (by decide), if_neg (by decide)]
        have hagree := @BitPrefix.agree_bytes a b (n / 8) (n % 8) (by omega) (by omega)
          (Nat.mod_lt _ (by decide))
        rw [Nat.div_add_mod] at hagree
        have hpart : n % 8 ≠ 0 → (((a.getD (n / 8) 0).toNat ^^^ (b.getD (n / 8) 0).toNat) &&&
            (0xff <<< (8 - n % 8)) = 0 ↔ ∀ i < n % 8, (a.getD (n / 8) 0).toNat.testBit (7 - i) =
              (b.getD (n / 8) 0).toNat.testBit (7 - i)) := by
          intro hne
          apply BitPrefix.mask_eq_zero (UInt8.toNat_lt _) (UInt8.toNat_lt _) (by omega)
          intro i hi
          rw [Nat.testBit_shiftLeft, show 0xff = 2 ^ 8 - 1 from rfl, Nat.testBit_two_pow_sub_one]
          simp only [Bool.and_eq_left_iff_imp, decide_eq_true_eq, ge_iff_le]
          omega
        rw [hagree]
        by_cases hbytes : a.take (n / 8) = b.take (n / 8)
        · rw [if_neg fun h => h.2 hbytes, and_iff_right hbytes]
          by_cases hzero : n % 8 = 0
          · rw [if_neg fun h => h.1 hzero, hzero]
            exact iff_of_true rfl nofun
          · rw [← hpart hzero]
            simp [hzero]
        · have hne : n / 8 ≠ 0 := by
            intro h0
            rw [h0] at hbytes
            exact hbytes rfl
          rw [if_pos ⟨hne, hbytes⟩]
          exact iff_of_false Bool.false_ne_true fun h => hbytes h.1
  · rw [if_pos (by simp; omega)]
    exact iff_of_false Bool.false_ne_true fun h => hbits h.1

theorem cidr_iff (htype : type ≠ .host) (name ip : Bytes) (bits : Nat) :
    (if type = .ipv6 then cidr6Match name ip bits else cidr4Match name ip bits) = true ↔
      bits ≤ width type ∧ ∃ a b, addressOf type name = some a ∧ addressOf type ip = some b ∧
        BitPrefix.Agree (if bits = 0 then width type else bits) a b := by
  cases type with
  | host => exact absurd rfl htype
  | ipv4 => exact cidr4Match_iff name ip bits
  | ipv6 => exact cidr6Match_iff name ip bits

/-- The name is the address, or it has the first `n` bits in common with it; `lit` are the texts of
addresses. -/
def Covers (lit : NameType → Bytes → Bytes → Prop) (type : NameType)
    (name token : Bytes) : Prop :=
  ∃ a b n, lit type name a ∧ Network (lit type) token n b ∧
    n.elim (a = b) fun n => 1 ≤ n ∧ n ≤ width type ∧ BitPrefix.Agree n a b

/-- The same for short tokens, where no bits are all of the bits. -/
def CoversShort (lit : NameType → Bytes → Bytes → Prop) (type : NameType)
    (name token : Bytes) : Prop :=
  token.length < 128 ∧ ∃ a b n, lit type name a ∧ Network (lit type) token n b ∧
    n.elim (a = b) fun n =>
      n ≤ width type ∧ BitPrefix.Agree (if n = 0 then width type else n) a b

theorem addressOf_length (h : addressOf type s = some a) : 8 * a.length = width type := by
  cases type with
  | host => cases h
  | ipv4 => rw [addr4_length h]; rfl
  | ipv6 => rw [addr6_length h]; rfl

/-- All bits of an address. -/
theorem agree_width (ha : addressOf type s = some a) (hb : addressOf type t = some b) :
    BitPrefix.Agree (width type) a b ↔ a = b := by
  have hla := addressOf_length ha
  have hlb := addressOf_length hb
  rw [← hla]
  exact BitPrefix.agree_all rfl (by omega)

/-- A token without a slash. -/
theorem coversShort_plain (htype : type ≠ .host) (hslash : 47 ∉ word) (hshort : word.length < 128) :
    (if type = .ipv6 then cidr6Match name word 0 else cidr4Match name word 0) = true ↔
      CoversShort Accepted type name word := by
  rw [cidr_iff htype, if_pos rfl]
  constructor
  · rintro ⟨-, a, b, ha, hb, hagree⟩
    exact ⟨hshort, a, b, none, ha, .plain hb, (agree_width ha hb).mp hagree⟩
  · rintro ⟨-, a, b, n, ha, hnetwork, hsame⟩
    cases hnetwork with
    | plain hb => exact ⟨Nat.zero_le _, a, b, ha, hb, (agree_width ha hb).mpr hsame⟩
    | bits hb hds hne => exact absurd (by simp) hslash

theorem before_slash (ht : 47 ∉ t) : ∀ c ∈ t, decide (c ≠ 47) = true := by
  intro c hc
  rw [decide_eq_true_eq]
  rintro rfl
  exact ht hc

theorem takeWhile_slash (ht : 47 ∉ t) (ds : Bytes) :
    (t ++ 47 :: ds).takeWhile (· ≠ 47) = t := by
  rw [List.takeWhile_append_of_pos (before_slash ht)]
  simp

/-- A token with a slash. -/
theorem coversShort_slash (htype : type ≠ .host) (ht : 47 ∉ t)
    (hshort : (t ++ 47 :: ds).length < 128) :
    CoversShort Accepted type name (t ++ 47 :: ds) ↔ (∀ c ∈ ds, isDigit c = true) ∧ ds ≠ [] ∧
      decimal ds ≤ 128 ∧
      (if type = .ipv6 then cidr6Match name t (decimal ds) else cidr4Match name t (decimal ds)) =
        true := by
  rw [cidr_iff htype]
  constructor
  · rintro ⟨-, a, b, n, ha, hnetwork, hsame⟩
    generalize hword : t ++ 47 :: ds = word at hnetwork
    cases hnetwork with
    | plain hb => exact absurd (by rw [← hword]; simp) (addressOf_slash hb)
    | @bits t' _ ds' hb hds hne =>
      obtain rfl : t = t' := by
        rw [← takeWhile_slash ht ds, hword, takeWhile_slash (addressOf_slash hb)]
      obtain ⟨-, rfl⟩ := List.cons.inj (List.append_cancel_left hword)
      have hwidth : width type ≤ 128 := by rw [width]; split <;> omega
      exact ⟨hds, hne, Nat.le_trans hsame.1 hwidth, hsame.1, a, b, ha, hb, hsame.2⟩
  · rintro ⟨hds, hne, -, hbits, a, b, ha, hb, hagree⟩
    exact ⟨hshort, a, b, some (decimal ds), ha, .bits hb hds hne, hbits, hagree⟩

/-- `match_ip`. -/
theorem matchIp_spec (htype : type ≠ .host) (htake : token.take word.length = word) :
    ∃ r, matchIp type token word.length name = some r ∧
      (r = true ↔ CoversShort Accepted type name word) := by
  rw [matchIp]
  by_cases hshort : word.length ≥ 128
  · rw [if_pos hshort]
    exact ⟨false, rfl, iff_of_false Bool.false_ne_true fun h => by have := h.1; omega⟩
  · have hcopy : copy token word.length = some word := by
      have hlength := congrArg List.length htake
      rw [List.length_take] at hlength
      rw [copy, if_pos (by omega), htake]
    rw [if_neg hshort, hcopy]
    simp only [Option.bind_eq_bind, Option.bind_some, Option.pure_def]
    have hcidr : ∀ ip bits, (if type = .ipv6 then some (cidr6Match name ip bits)
        else some (cidr4Match name ip bits)) =
          some (if type = .ipv6 then cidr6Match name ip bits else cidr4Match name ip bits) := by
      intro ip bits
      split <;> rfl
    by_cases hslash : 47 ∈ word
    · obtain ⟨t, ds, rfl, ht⟩ := List.eq_append_cons_of_mem hslash
      have hrest : ((t ++ 47 :: ds).dropWhile (· ≠ 47)).tail = ds := by
        rw [List.dropWhile_append_of_pos (before_slash ht)]
        simp
      rw [if_pos hslash, takeWhile_slash ht, hrest, coversShort_slash htype ht (by omega),
        strNumber_eq (by decide)]
      have hsplit := List.takeWhile_append_dropWhile (p := isDigit) (l := ds)
      by_cases hnone : ds.takeWhile isDigit = []
      · rw [if_pos hnone]
        refine ⟨false, rfl, iff_of_false Bool.false_ne_true ?_⟩
        rintro ⟨hds, hne, -⟩
        rw [List.takeWhile_eq_self_iff.mpr hds] at hnone
        exact hne hnone
      · rw [if_neg hnone]
        by_cases hlarge : decimal (ds.takeWhile isDigit) ≤ 128
        · rw [if_pos hlarge]
          cases hmore : ds.dropWhile isDigit with
          | nil =>
            rw [hmore, List.append_nil] at hsplit
            have hds : ∀ c ∈ ds, isDigit c = true := List.dropWhile_eq_nil_iff.mp hmore
            rw [hsplit] at hnone hlarge ⊢
            refine ⟨_, hcidr t (decimal ds), ?_⟩
            rw [and_iff_right hds, and_iff_right hnone, and_iff_right hlarge]
          | cons c more =>
            refine ⟨false, rfl, iff_of_false Bool.false_ne_true ?_⟩
            rintro ⟨hds, -⟩
            rw [List.dropWhile_eq_nil_iff.mpr hds] at hmore
            cases hmore
        · rw [if_neg hlarge]
          refine ⟨false, rfl, iff_of_false Bool.false_ne_true ?_⟩
          rintro ⟨hds, -, hvalue, -⟩
          rw [List.takeWhile_eq_self_iff.mpr hds] at hlarge
          exact hlarge hvalue
    · rw [if_neg hslash, hcidr]
      exact ⟨_, rfl, coversShort_plain htype hslash (by omega)⟩

/-! ### The whole list -/

/-- The host is in the list: as an address in a network, or as a domain when it is no address. -/
def Listed (lit : NameType → Bytes → Bytes → Prop)
    (covers : NameType → Bytes → Bytes → Prop) (name noProxy : Bytes) : Prop :=
  noProxy = [42] ∨ ∃ token, Token noProxy token ∧ ((∃ type, covers type name token) ∨
    (∀ type a, ¬lit type name a) ∧ InDomain (undotted name) (trimDots token))

theorem token_nil : ¬Token [] w := by
  intro h
  obtain ⟨rfl, hne⟩ | ⟨r, hr, -⟩ := (token_step []).mp h
  · exact hne rfl
  · cases hr

/-- A list without blanks and commas is one token. -/
theorem token_single (h : ∀ c ∈ p, inPattern c = true) (hne : p ≠ []) : Token p w ↔ w = p := by
  have hblank : ∀ c ∈ p.head?, isBlank c = false := by
    intro c hc
    have hin := h c (List.mem_of_head? hc)
    rw [inPattern, Bool.and_eq_true, Bool.not_eq_true'] at hin
    exact hin.1
  rw [token_step, passblanks_self hblank, List.takeWhile_eq_self_iff.mpr h, List.drop_length]
  constructor
  · rintro (⟨rfl, -⟩ | ⟨r, hr, -⟩)
    · rfl
    · cases hr
  · rintro rfl
    exact .inl ⟨rfl, hne⟩

/-- A text is read as an address of one kind only. -/
theorem accepted_type {type' : NameType} (h : Accepted type s a) (h' : Accepted type' s b) :
    type = type' := by
  have hapart : ∀ {t w}, addr4 s = some t → pton6Bytes s ≠ some w := by
    intro t w h4 h6
    obtain ⟨q₁, q₂, q₃, q₄, rfl, -⟩ := pton4Loop_iff.mp h4
    have hcolon : ∀ {u v}, TextForm u v → 58 ∈ u := by
      rintro _ _ (⟨hpieces, hlength⟩ | _)
      · cases hpieces with
        | last => cases hlength
        | quad => cases hlength
        | cons => simp
      · simp
    have hmem : 58 ∈ dottedQuad q₁ q₂ q₃ q₄ := by
      obtain hform | ⟨u, hu, -⟩ := form_of_accepted h6
      · exact hcolon hform
      · simp [hu]
    exact absurd (quad_bytes q₁ q₂ q₃ q₄ 58 hmem) (by decide)
  cases type <;> cases type' <;> first
    | rfl
    | cases h
    | cases h'
    | exact absurd h' (hapart h)
    | exact absurd h (hapart h')

/-- What the function says of a list, with the addresses as it reads them. -/
theorem proxyCheckNoproxy_accepted (name noProxy : Bytes) :
    ∃ r, proxyCheckNoproxy name noProxy = some r ∧
      (r = true ↔ name ≠ [] ∧ Listed Accepted (CoversShort Accepted) name noProxy) := by
  rw [proxyCheckNoproxy]
  by_cases hname : name = []
  · rw [if_pos hname]
    exact ⟨false, rfl, iff_of_false Bool.false_ne_true fun h => h.1 hname⟩
  rw [if_neg hname, and_iff_right hname, Listed]
  by_cases hlist : noProxy = []
  · rw [if_neg (not_not_intro hlist), hlist]
    refine ⟨false, rfl, iff_of_false Bool.false_ne_true ?_⟩
    rintro (habs | ⟨token, htoken, -⟩)
    · cases habs
    · exact token_nil htoken
  rw [if_pos hlist]
  by_cases hstar : noProxy = [42]
  · rw [if_pos hstar]
    exact ⟨true, rfl, iff_of_true rfl (.inl hstar)⟩
  rw [if_neg hstar, or_iff_right hstar, inetPton4_eq, inetPton6_eq]
  have haddress : ∀ type : NameType, type ≠ .host → ∀ a, Accepted type name a →
      ∃ r, noproxyLoop type name name.length noProxy = some r ∧ (r = true ↔ ∃ token,
        Token noProxy token ∧ ((∃ type, CoversShort Accepted type name token) ∨
          (∀ type a, ¬Accepted type name a) ∧ InDomain (undotted name) (trimDots token))) := by
    intro type htype a ha
    apply noproxyLoop_spec
    intro token word hne htake
    obtain ⟨r, hr, hcovers⟩ := matchIp_spec htype htake
    refine ⟨r, by rw [if_neg htype, hr], hcovers.trans ⟨fun h => .inl ⟨type, h⟩, ?_⟩⟩
    rintro (⟨type', h⟩ | ⟨hnone, -⟩)
    · obtain ⟨-, b, -, -, hb, -⟩ := id h
      rwa [accepted_type ha hb]
    · exact absurd ha (hnone type a)
  cases h4 : addr4 name with
  | some a => exact haddress .ipv4 (by decide) a h4
  | none =>
    cases h6 : pton6Bytes name with
    | some a => exact haddress .ipv6 (by decide) a h6
    | none =>
      have hnone : ∀ type a, ¬Accepted type name a := by
        intro type a h
        cases type with
        | host => cases h
        | ipv4 => cases h4.symm.trans h
        | ipv6 => cases h6.symm.trans h
      have hpos : 1 ≤ name.length := List.length_pos_of_ne_nil hname
      have hlast : readBack name name.length 1 = some (name.getD (name.length - 1) 0) := by
        rw [readBack, if_pos hpos, readAt_word List.take_length (by omega)]
      rw [hlast]
      simp only [Option.bind_eq_bind, Option.bind_some, undotted_length hname]
      apply noproxyLoop_spec
      intro token word hne htake
      obtain ⟨r, hr, hdomain⟩ := matchHost_spec hne htake (undotted_take name)
      refine ⟨r, hr, hdomain.trans ⟨fun h => .inr ⟨hnone, h⟩, ?_⟩⟩
      rintro (⟨type, -, a, -, -, ha, -⟩ | ⟨-, h⟩)
      · exact absurd ha (hnone type a)
      · exact h

/-! ### Addresses as texts -/

/-- Neither the name nor the address of a token that it is compared with is an IPv6 address with a
colon too many behind it. -/
structure Unextended (name noProxy : Bytes) : Prop where
  host : ¬ExtraColon name
  tokens : (∃ a, TextForm name a) → ∀ token, Token noProxy token →
    ¬ExtraColon (token.takeWhile (· ≠ 47))

theorem accepted_of_literal (h : Literal type s a) : Accepted type s a := by
  cases h with
  | ipv4 a b c d => exact pton4Loop_iff.mpr ⟨a, b, c, d, rfl, rfl⟩
  | ipv6 hform => exact accepts_form hform

theorem literal_of_accepted (hextra : type = .ipv6 → ¬ExtraColon s) (h : Accepted type s a) :
    Literal type s a := by
  cases type with
  | host => cases h
  | ipv4 =>
    obtain ⟨a, b, c, d, rfl, rfl⟩ := pton4Loop_iff.mp h
    exact .ipv4 a b c d
  | ipv6 =>
    obtain hform | ⟨t, ht, hform, hbare⟩ := form_of_accepted h
    · exact .ipv6 hform
    · exact absurd ⟨t, a, ht, hform, hbare⟩ (hextra rfl)

theorem network_literal {m : Option Nat}
    (hextra : type = .ipv6 → ¬ExtraColon (token.takeWhile (· ≠ 47))) :
    Network (Accepted type) token m b ↔ Network (Literal type) token m b := by
  constructor
  · rintro (hb | ⟨hb, hds, hne⟩)
    · rw [List.takeWhile_eq_self_iff.mpr (before_slash (addressOf_slash hb))] at hextra
      exact .plain (literal_of_accepted hextra hb)
    · rw [takeWhile_slash (addressOf_slash hb)] at hextra
      exact .bits (literal_of_accepted hextra hb) hds hne
  · rintro (hb | ⟨hb, hds, hne⟩)
    · exact .plain (accepted_of_literal hb)
    · exact .bits (accepted_of_literal hb) hds hne

theorem coversShort_literal (hname : ¬ExtraColon name)
    (htoken : (∃ a, TextForm name a) → ¬ExtraColon (token.takeWhile (· ≠ 47))) :
    CoversShort Accepted type name token ↔ CoversShort Literal type name token := by
  have hextra {a : Bytes} (h : Literal type name a) (htype : type = .ipv6) :
      ¬ExtraColon (token.takeWhile (· ≠ 47)) := by
    subst htype
    cases h with
    | ipv6 hform => exact htoken ⟨a, hform⟩
  constructor
  · rintro ⟨hshort, a, b, n, ha, hnetwork, hsame⟩
    have hlit := literal_of_accepted (fun _ => hname) ha
    exact ⟨hshort, a, b, n, hlit, (network_literal (hextra hlit)).mp hnetwork, hsame⟩
  · rintro ⟨hshort, a, b, n, ha, hnetwork, hsame⟩
    exact ⟨hshort, a, b, n, accepted_of_literal ha, (network_literal (hextra ha)).mpr hnetwork,
      hsame⟩

theorem listed_literal (h : Unextended name noProxy) :
    Listed Accepted (CoversShort Accepted) name noProxy ↔
      Listed Literal (CoversShort Literal) name noProxy := by
  refine or_congr Iff.rfl (exists_congr fun token => and_congr_right fun htoken => or_congr
    (exists_congr fun type => coversShort_literal h.host fun hform => h.tokens hform token htoken)
    (and_congr (forall₂_congr fun type a => not_congr ?_) Iff.rfl))
  exact ⟨literal_of_accepted fun _ => h.host, accepted_of_literal⟩

/-- `proxy_check_noproxy` reads no byte outside of its strings, comes to an end, and finds the hosts
that are in the list, but for the IPv6 addresses with a colon too many that it reads as well. -/
theorem proxyCheckNoproxy_spec (name noProxy : Bytes) :
    ∃ r, proxyCheckNoproxy name noProxy = some r ∧ (Unextended name noProxy →
      (r = true ↔ name ≠ [] ∧ Listed Literal (CoversShort Literal) name noProxy)) := by
  obtain ⟨r, hr, hlisted⟩ := proxyCheckNoproxy_accepted name noProxy
  exact ⟨r, hr, fun h => hlisted.trans (and_congr Iff.rfl (listed_literal h))⟩

/-- No host is in no list; of an address in front of `/0` all of the bits count; and a long token is
no network. -/
theorem noproxy_differs :
    ¬(proxyCheckNoproxy [] [42] = some true ↔ Listed Literal (Covers Literal) [] [42]) ∧
      ¬(proxyCheckNoproxy [49, 46, 50, 46, 51, 46, 52] [49, 46, 50, 46, 51, 46, 52, 47, 48] =
        some true ↔ Listed Literal (Covers Literal)
          [49, 46, 50, 46, 51, 46, 52] [49, 46, 50, 46, 51, 46, 52, 47, 48]) ∧
      ¬(proxyCheckNoproxy [49, 46, 50, 46, 51, 46, 52]
          ([49, 46, 50, 46, 51, 46, 52] ++ 47 :: (List.replicate 119 48 ++ [51, 50])) = some true ↔
        Listed Literal (Covers Literal) [49, 46, 50, 46, 51, 46, 52]
          ([49, 46, 50, 46, 51, 46, 52] ++ 47 :: (List.replicate 119 48 ++ [51, 50]))) := by
  have haddr : Literal .ipv4 [49, 46, 50, 46, 51, 46, 52] [1, 2, 3, 4] := .ipv4 1 2 3 4
  refine ⟨fun h => ?_, fun h => ?_, fun h => ?_⟩
  · exact absurd (h.mpr (.inl rfl)) (by decide +kernel)
  · obtain habs | ⟨token, htoken, ⟨type, a, b, n, ha, hnetwork, hsame⟩ | ⟨hnone, -⟩⟩ :=
      h.mp (by decide +kernel)
    · cases habs
    · rw [token_single (by decide +kernel) (by simp)] at htoken
      obtain rfl := accepted_type (accepted_of_literal haddr) (accepted_of_literal ha)
      generalize hword : token = word at hnetwork
      cases hnetwork with
      | plain hb => exact addressOf_slash (accepted_of_literal hb) (by rw [← hword, htoken]; decide)
      | @bits t _ ds hb hds hne =>
        rw [htoken] at hword
        obtain rfl : t = [49, 46, 50, 46, 51, 46, 52] := by
          rw [← takeWhile_slash (addressOf_slash (accepted_of_literal hb)) ds, ← hword]
          decide
        obtain rfl : [48] = ds := (List.cons.inj (List.append_cancel_left
          (show [49, 46, 50, 46, 51, 46, 52] ++ [47, 48] = _ ++ 47 :: ds from hword))).2
        exact absurd hsame.1 (by decide)
    · exact hnone _ _ haddr
  · have hlisted : Listed Literal (Covers Literal) [49, 46, 50, 46, 51, 46, 52]
        ([49, 46, 50, 46, 51, 46, 52] ++ 47 :: (List.replicate 119 48 ++ [51, 50])) := by
      refine .inr ⟨_, (token_single (by decide +kernel) (by simp)).mpr rfl, .inl ⟨.ipv4, ?_⟩⟩
      refine ⟨[1, 2, 3, 4], [1, 2, 3, 4], _, haddr, .bits haddr (by decide +kernel) (by simp), ?_⟩
      have hvalue : decimal (List.replicate 119 48 ++ [51, 50]) = 32 := by decide +kernel
      rw [hvalue]
      exact ⟨by decide, by decide, fun i hi => rfl⟩
    exact absurd (h.mpr hlisted) (by decide +kernel)

end Gurl.Proxy
