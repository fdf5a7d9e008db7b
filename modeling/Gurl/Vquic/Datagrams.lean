import Gurl.Vquic.Capsule

/-! Datagrams come out of capsules as they went in, however the stream of capsules is cut. -/

namespace Gurl.Vquic

open Buffer

variable {s s' : State} {xs ys zs rest p : Bytes} {v n len offset : Nat}

/-! ### Varints -/

/-- A step of the loop that reads a varint. -/
def addByte (value : Nat) (byte : UInt8) : Nat := value <<< 8 ||| byte.toNat

theorem addByte_eq (value : Nat) (byte : UInt8) :
    addByte value byte = value * 256 + byte.toNat := by
  unfold addByte
  rw [Nat.shiftLeft_eq, Nat.mul_comm, ← Nat.two_pow_add_eq_or_of_lt byte.toNat_lt, Nat.mul_comm]

theorem networkBytes_length (n value : Nat) : (networkBytes n value).length = n := by
  induction n generalizing value with
  | zero => rfl
  | succ n ih => simp [networkBytes, ih]

theorem networkBytes_cons (n value : Nat) :
    networkBytes (n + 1) value = UInt8.ofNat (value / 256 ^ n) :: networkBytes n value := by
  induction n generalizing value with
  | zero => simp [networkBytes]
  | succ n ih =>
    rw [networkBytes, ih, Nat.div_div_eq_div_mul, Nat.pow_succ, Nat.mul_comm (256 ^ n)]
    rfl

theorem foldl_networkBytes (n value start : Nat) :
    (networkBytes n value).foldl addByte start = start * 256 ^ n + value % 256 ^ n := by
  induction n generalizing value with
  | zero => simp [networkBytes, Nat.mod_one]
  | succ n ih =>
    have hmod : value % 256 ^ (n + 1) = value / 256 % 256 ^ n * 256 + value % 256 := by
      rw [Nat.pow_succ, Nat.mul_comm (256 ^ n), Nat.mod_mul]
      omega
    rw [networkBytes, List.foldl_append, ih, List.foldl_cons, List.foldl_nil, addByte_eq, hmod,
      Nat.add_mul, Nat.pow_succ, Nat.mul_assoc, UInt8.toNat_ofNat']
    omega

/-- The first byte of a varint tells the number of the other bytes. -/
structure IsVarint (v : Nat) (first : UInt8) (tail : Bytes) : Prop where
  length : tail.length + 1 = 1 <<< (first.toNat >>> 6)
  value : tail.foldl addByte (first.toNat &&& 0x3F) = v

theorem isVarint_networkBytes {t n v : Nat} (ht : t < 4) (hn : n + 1 = 2 ^ t)
    (hv : v < 64 * 256 ^ n) :
    ∃ first tail, networkBytes (n + 1) (v + t * 64 * 256 ^ n) = first :: tail ∧
      IsVarint v first tail := by
  have hpos : 0 < 256 ^ n := Nat.pow_pos (by decide)
  have hhigh : v / 256 ^ n < 64 := (Nat.div_lt_iff_lt_mul hpos).mpr hv
  have hdiv : (v + t * 64 * 256 ^ n) / 256 ^ n = v / 256 ^ n + t * 64 :=
    Nat.add_mul_div_right _ _ hpos
  have hvalue := Nat.div_add_mod' v (256 ^ n)
  generalize v / 256 ^ n = high at hhigh hdiv hvalue
  have hfirst : (UInt8.ofNat (high + t * 64)).toNat = high + t * 64 := by
    rw [UInt8.toNat_ofNat']
    omega
  refine ⟨_, _, networkBytes_cons n _, ?_, ?_⟩
  · rw [networkBytes_length, hn, hdiv, hfirst, Nat.shiftRight_eq_div_pow, Nat.shiftLeft_eq,
      Nat.one_mul]
    congr 1
    omega
  · have hlow : (high + t * 64) &&& 0x3F = high := by
      rw [show (0x3F : Nat) = 2 ^ 6 - 1 from rfl, Nat.and_two_pow_sub_one_eq_mod]
      omega
    rw [foldl_networkBytes, hdiv, hfirst, Nat.add_mul_mod_self_right, hlow, hvalue]

/-- A tag in front of the `k` bits of a number. -/
theorem or_tag {k v : Nat} (hv : v < 2 ^ k) (tag : Nat) :
    (v &&& (2 ^ k - 1)) ||| (2 ^ k * tag) = v + 2 ^ k * tag := by
  rw [Nat.and_two_pow_sub_one_eq_mod, Nat.mod_eq_of_lt hv, Nat.or_comm,
    ← Nat.two_pow_add_eq_or_of_lt hv, Nat.add_comm]

/-- The largest number that fits into a varint. -/
def varintMax : Nat := 0x3FFFFFFFFFFFFFFF

theorem capsuleEncodeVarintBuf_isVarint (hv : v ≤ varintMax) :
    ∃ first tail, capsuleEncodeVarintBuf v = first :: tail ∧ IsVarint v first tail := by
  unfold varintMax at hv
  unfold capsuleEncodeVarintBuf
  split
  · obtain ⟨first, tail, heq, h⟩ :=
      isVarint_networkBytes (t := 0) (n := 0) (v := v) (by decide) rfl (by omega)
    rw [Nat.zero_mul, Nat.add_zero] at heq
    exact ⟨first, tail, heq, h⟩
  split
  · have hor : (v &&& 0x3FFF) ||| 0x4000 = v + 1 * 64 * 256 ^ 1 := or_tag (k := 14) (by omega) 1
    rw [hor]
    exact isVarint_networkBytes (by decide) rfl (by omega)
  split
  · have hor : (v &&& 0x3FFFFFFF) ||| 0x80000000 = v + 2 * 64 * 256 ^ 3 :=
      or_tag (k := 30) (by omega) 2
    rw [hor]
    exact isVarint_networkBytes (by decide) rfl (by omega)
  · have hor : (v &&& 0x3FFFFFFFFFFFFFFF) ||| 0xC000000000000000 = v + 3 * 64 * 256 ^ 7 :=
      or_tag (k := 62) (by omega) 3
    rw [hor]
    exact isVarint_networkBytes (by decide) rfl (by omega)

/-! ### Capsules in a list of bytes -/

/-- The varint at the front of a list, and the number of its bytes. -/
def varintOf : Bytes → Option (Nat × Nat)
  | [] => none
  | first :: rest =>
    let nbytes := 1 <<< (first.toNat >>> 6)
    if rest.length < nbytes - 1 then none
    else some ((rest.take (nbytes - 1)).foldl addByte (first.toNat &&& 0x3F), nbytes)

theorem IsVarint.varintOf {first : UInt8} {tail : Bytes} (h : IsVarint v first tail)
    (rest : Bytes) :
    varintOf (first :: tail ++ rest) = some (v, (first :: tail).length) := by
  have hlen : 1 <<< (first.toNat >>> 6) - 1 = tail.length := by
    have := h.length
    omega
  rw [List.cons_append, Vquic.varintOf]
  rw [hlen, if_neg (by simp), List.take_left, h.value, ← h.length, List.length_cons]

/-- A varint that has not arrived as a whole is not read. -/
theorem IsVarint.varintOf_short {first : UInt8} {tail : Bytes} (h : IsVarint v first tail)
    (hfront : ys <+: first :: tail) (hshort : ys.length < (first :: tail).length) :
    Vquic.varintOf ys = none := by
  cases ys with
  | nil => rfl
  | cons y ys =>
    obtain ⟨rfl, -⟩ := List.cons_prefix_cons.mp hfront
    have := h.length
    rw [List.length_cons, List.length_cons] at hshort
    rw [Vquic.varintOf]
    rw [if_pos (by omega)]

/-- What a call makes of the bytes in the queue, and the bytes afterwards. -/
def readCapsule (len : Nat) (xs : Bytes) : UdpRead × Bytes :=
  match xs with
  | [] => (⟨.again, []⟩, xs)
  | capsuleType :: ys =>
    if capsuleType ≠ 0 then (⟨.recvError, []⟩, ys)
    else
      match varintOf ys with
      | none => (⟨.again, []⟩, xs)
      | some (capsuleLength, n) =>
        match ys.drop n with
        | [] => (⟨.again, []⟩, xs)
        | contextId :: zs =>
          if contextId ≠ 0 ∨ capsuleLength = 0 then (⟨.recvError, []⟩, zs)
          else if capsuleLength - 1 ≥ sizeMax then (⟨.recvError, []⟩, xs)
          else if zs.length < capsuleLength - 1 then (⟨.again, []⟩, xs)
          else if capsuleLength - 1 > len then (⟨.recvError, []⟩, zs.drop (capsuleLength - 1))
          else (⟨.ok, zs.take (capsuleLength - 1)⟩, zs.drop (capsuleLength - 1))

/-- The bytes of a capsule. -/
def capsule (p : Bytes) : Bytes :=
  capsuleEncapUdpHdr httpCapsuleHeaderMaxSize p.length ++ p

theorem capsule_eq (p : Bytes) :
    capsule p = 0 :: (capsuleEncodeVarintBuf (p.length + 1) ++ 0 :: p) := by
  simp [capsule, capsuleEncapUdpHdr]

/-- The payload fits into the buffer, and its length into the header. -/
structure Fits (len : Nat) (p : Bytes) : Prop where
  buffer : p.length ≤ len
  varint : p.length + 1 ≤ varintMax

/-- A capsule whose header is there. -/
theorem readCapsule_header (hvarint : varintOf ys = some (n + 1, offset))
    (hdrop : ys.drop offset = 0 :: zs) (hsize : n < sizeMax) (hlen : n ≤ len) :
    readCapsule len (0 :: ys) =
      if zs.length < n then (⟨.again, []⟩, 0 :: ys) else (⟨.ok, zs.take n⟩, zs.drop n) := by
  simp only [readCapsule, hvarint, hdrop, Nat.add_sub_cancel]
  simp [Nat.not_le.mpr hsize, Nat.not_lt.mpr hlen]

theorem Fits.size (h : Fits len p) : p.length < sizeMax := by
  have := h.varint
  unfold varintMax at this
  unfold sizeMax
  omega

theorem readCapsule_capsule (h : Fits len p) (rest : Bytes) :
    readCapsule len (capsule p ++ rest) = (⟨.ok, p⟩, rest) := by
  obtain ⟨first, tail, henc, hvarint⟩ := capsuleEncodeVarintBuf_isVarint h.varint
  have hread := hvarint.varintOf (0 :: (p ++ rest))
  have hbytes : capsule p ++ rest = 0 :: (first :: tail ++ 0 :: (p ++ rest)) := by
    rw [capsule_eq, henc]
    simp
  rw [hbytes, readCapsule_header hread List.drop_left h.size h.buffer, if_neg (by simp),
    List.take_left, List.drop_left]

/-- Nothing happens before a capsule has arrived as a whole. -/
theorem readCapsule_short (h : Fits len p) (hfront : xs <+: capsule p)
    (hshort : xs.length < (capsule p).length) : readCapsule len xs = (⟨.again, []⟩, xs) := by
  obtain ⟨first, tail, henc, hvarint⟩ := capsuleEncodeVarintBuf_isVarint h.varint
  rw [capsule_eq, henc] at hfront hshort
  cases xs with
  | nil => rfl
  | cons x ys =>
    obtain ⟨rfl, htail⟩ := List.cons_prefix_cons.mp hfront
    rw [List.length_cons, List.length_cons, List.length_append] at hshort
    rcases Nat.lt_or_ge ys.length (first :: tail).length with hlt | hge
    · -- the length is not there
      have hys := List.prefix_of_prefix_length_le htail (List.prefix_append _ _) hlt.le
      simp [readCapsule, hvarint.varintOf_short hys hlt]
    · obtain ⟨ws, rfl⟩ := List.prefix_of_prefix_length_le (List.prefix_append _ _) htail hge
      have hread := hvarint.varintOf ws
      have hws := (List.prefix_append_right_inj _).mp htail
      cases ws with
      | nil =>
        -- the context is not there
        simp only [readCapsule, hread, List.drop_left]
        simp
      | cons w ws =>
        obtain ⟨rfl, hws⟩ := List.cons_prefix_cons.mp hws
        have hless : ws.length < p.length := by
          simp only [List.length_append, List.length_cons] at hshort
          omega
        rw [readCapsule_header hread List.drop_left h.size h.buffer, if_pos hless]

theorem readCapsule_again (h : (readCapsule len xs).1.err = .again) :
    (readCapsule len xs).2 = xs := by
  unfold readCapsule at h ⊢
  split
  · rfl
  dsimp only at h ⊢
  split
  · rename_i htype
    rw [if_pos htype] at h
    cases h
  rename_i htype
  rw [if_neg htype] at h
  split
  · rfl
  rename_i hvarint
  rw [hvarint] at h
  dsimp only at h
  split
  · rfl
  rename_i hdrop
  rw [hdrop] at h
  dsimp only at h
  split
  · rename_i hbad
    rw [if_pos hbad] at h
    cases h
  rename_i hgood
  rw [if_neg hgood] at h
  split
  · rfl
  rename_i hsize
  rw [if_neg hsize] at h
  split
  · rfl
  rename_i hthere
  rw [if_neg hthere] at h
  split at h <;> cases h

/-! ### Capsules in a queue -/

theorem capsulePeekU8_spec (hrep : Rep s xs) (offset : Nat) :
    capsulePeekU8 s offset =
      some (match xs.drop offset with
        | byte :: _ => .ok byte
        | [] => .error .again) := by
  obtain ⟨shown, hpeek, hshows⟩ := bufqPeekAt_spec offset hrep
  unfold capsulePeekU8
  rw [hpeek]
  cases shown with
  | none =>
    rw [show xs.drop offset = [] from hshows]
    rfl
  | some bytes =>
    obtain ⟨hsome, hfront⟩ := hshows
    obtain ⟨byte, bytes, rfl⟩ := List.exists_cons_of_ne_nil hsome
    obtain ⟨more, hmore⟩ := hfront
    rw [← hmore]
    rfl

theorem varintLoop_spec (hrep : Rep s xs) (n offset value : Nat) :
    varintLoop s n offset value =
      some (if (xs.drop offset).length < n then .error .again
        else .ok (((xs.drop offset).take n).foldl addByte value)) := by
  induction n generalizing offset value with
  | zero => simp [varintLoop]
  | succ n ih =>
    rw [varintLoop, capsulePeekU8_spec hrep]
    simp only [Option.bind_eq_bind, Option.bind_some]
    have hdrop : xs.drop (offset + 1) = (xs.drop offset).drop 1 := (List.drop_drop).symm
    cases hys : xs.drop offset with
    | nil => simp
    | cons byte ys =>
      dsimp only
      rw [ih, hdrop, hys, List.drop_one, List.tail_cons, List.length_cons, List.take_succ_cons,
        List.foldl_cons]
      simp only [Nat.add_lt_add_iff_right]
      rfl

theorem capsuleDecodeVarintAt_spec (hrep : Rep s xs) (offset : Nat) :
    capsuleDecodeVarintAt s offset =
      some (match varintOf (xs.drop offset) with
        | some found => .ok found
        | none => .error .again) := by
  unfold capsuleDecodeVarintAt
  rw [capsulePeekU8_spec hrep]
  simp only [Option.bind_eq_bind, Option.bind_some]
  have hdrop : xs.drop (offset + 1) = (xs.drop offset).drop 1 := (List.drop_drop).symm
  cases hys : xs.drop offset with
  | nil => rfl
  | cons first ys =>
    dsimp only
    rw [varintLoop_spec hrep, hdrop, hys, List.drop_one, List.tail_cons, Option.bind_some, varintOf]
    split <;> rfl

theorem skipping_spec (hrep : Rep s xs) (amount : Nat) (err : Curlcode) :
    ∃ s', skipping s amount err = some (s', ⟨err, []⟩) ∧ Rep s' (xs.drop amount) := by
  obtain ⟨s', hskip, hrep⟩ := bufqSkip_spec amount hrep
  exact ⟨s', by simp [skipping, hskip], hrep⟩

theorem processPayload_spec (hrep : Rep s xs) (len : Nat) (hhead : offset ≤ xs.length) (n : Nat) :
    ∃ s' r ys, processPayload s len offset n = some (s', r) ∧ Rep s' ys ∧
      (r, ys) = if (xs.drop offset).length < n then (⟨.again, []⟩, xs)
        else if n > len then (⟨.recvError, []⟩, (xs.drop offset).drop n)
        else (⟨.ok, (xs.drop offset).take n⟩, (xs.drop offset).drop n) := by
  unfold processPayload
  rw [bufqLen_spec hrep, List.length_drop]
  simp only [Option.bind_eq_bind, Option.bind_some]
  by_cases hshort : xs.length - offset < n
  · rw [if_pos hshort, if_pos (by omega)]
    exact ⟨s, _, xs, rfl, hrep, rfl⟩
  rw [if_neg hshort, if_neg (by omega)]
  split
  · obtain ⟨s', hskip, hrep'⟩ := skipping_spec hrep (offset + n) .recvError
    rw [← List.drop_drop] at hrep'
    exact ⟨s', _, _, hskip, hrep', rfl⟩
  obtain ⟨s1, hskip, hrep1⟩ := bufqSkip_spec offset hrep
  rw [hskip, Option.bind_some]
  split
  · rename_i hzero
    subst hzero
    exact ⟨s1, _, _, rfl, hrep1, by simp⟩
  rename_i hpos
  obtain ⟨s2, hread, hrep2⟩ := bufqRead_spec n hrep1
  have htaken : ((xs.drop offset).take n).length = n := by
    rw [List.length_take, List.length_drop]
    omega
  have hsome : (xs.drop offset).take n ≠ [] := fun hnil => by
    rw [hnil] at htaken
    exact hpos htaken.symm
  rw [hread, Option.bind_some, if_neg hsome]
  refine ⟨s2, _, _, if_neg ?_, hrep2, rfl⟩
  simp [htaken]

/-- What is shown of a queue begins as the queue does. -/
theorem Shows.cons {shown : Option Bytes} {x : UInt8} (h : Shows (x :: ys) shown) :
    ∃ more, shown = some (x :: more) := by
  cases shown with
  | none => cases h
  | some bytes =>
    obtain ⟨hsome, hfront⟩ := h
    obtain ⟨byte, bytes, rfl⟩ := List.exists_cons_of_ne_nil hsome
    obtain ⟨rfl, -⟩ := List.cons_prefix_cons.mp hfront
    exact ⟨bytes, rfl⟩

theorem Shows.nil {shown : Option Bytes} (h : Shows [] shown) : shown = none := by
  cases shown with
  | none => rfl
  | some bytes => exact absurd (List.prefix_nil.mp h.2) h.1

theorem processCapsule_spec (hrep : Rep s (0 :: ys)) (len : Nat) :
    ∃ s', processCapsule s len = some (s', (readCapsule len (0 :: ys)).1) ∧
      Rep s' (readCapsule len (0 :: ys)).2 := by
  unfold processCapsule
  rw [capsuleDecodeVarintAt_spec hrep, List.drop_one, List.tail_cons]
  simp only [Option.bind_eq_bind, Option.bind_some]
  cases hvarint : varintOf ys with
  | none => exact ⟨s, by simp [readCapsule, hvarint], by simpa [readCapsule, hvarint] using hrep⟩
  | some found =>
    obtain ⟨capsuleLength, n⟩ := found
    obtain ⟨shown, hpeek, hshows⟩ := bufqPeekAt_spec (1 + n) hrep
    have hdrop : ∀ k, (0 :: ys).drop (1 + k) = ys.drop k := fun k => by
      rw [Nat.add_comm, List.drop_succ_cons]
    rw [hdrop] at hshows
    dsimp only
    rw [hpeek, Option.bind_some]
    cases hcontext : ys.drop n with
    | nil =>
      rw [hcontext] at hshows
      rw [Shows.nil hshows]
      exact ⟨s, by simp [readCapsule, hvarint, hcontext],
        by simpa [readCapsule, hvarint, hcontext] using hrep⟩
    | cons contextId zs =>
      rw [hcontext] at hshows
      obtain ⟨more, rfl⟩ := Shows.cons hshows
      have hrest : (0 :: ys).drop (1 + n + 1) = zs := by
        rw [← List.drop_drop, hdrop, hcontext, List.drop_one, List.tail_cons]
      obtain ⟨s1, hskip, hrep1⟩ := skipping_spec hrep (1 + n + 1) .recvError
      rw [hrest] at hrep1
      simp only [readCapsule, hvarint, hcontext]
      rw [if_neg (show ¬ (0 : UInt8) ≠ 0 by simp)]
      by_cases hid : contextId = 0
      · by_cases hzero : capsuleLength = 0
        · rw [if_neg (not_not.mpr hid), if_pos hzero, if_pos (.inr hzero), hskip]
          exact ⟨s1, rfl, hrep1⟩
        · rw [if_neg (not_not.mpr hid), if_neg hzero,
            if_neg (not_or.mpr ⟨not_not.mpr hid, hzero⟩)]
          split
          · exact ⟨s, rfl, hrep⟩
          · have hhead : 1 + n + 1 ≤ (0 :: ys).length := by
              have := congrArg List.length hcontext
              rw [List.length_drop, List.length_cons] at this
              rw [List.length_cons]
              omega
            obtain ⟨s2, r, rest, hpayload, hrep2, heq⟩ :=
              processPayload_spec hrep len hhead (capsuleLength - 1)
            rw [hrest] at heq
            rw [hpayload, ← heq]
            exact ⟨s2, rfl, hrep2⟩
      · rw [if_pos hid, if_pos (.inl hid), hskip]
        exact ⟨s1, rfl, hrep1⟩

/-- A call does with the queue what `readCapsule` does with the list of its bytes. -/
theorem capsuleProcessUdpRaw_spec (hrep : Rep s xs) (hlen : 0 < len) :
    ∃ s', capsuleProcessUdpRaw s len = some (s', (readCapsule len xs).1) ∧
      Rep s' (readCapsule len xs).2 := by
  unfold capsuleProcessUdpRaw
  rw [if_neg (by omega), bufqIsEmpty_spec hrep]
  simp only [Option.bind_eq_bind, Option.bind_some, decide_eq_true_eq]
  cases xs with
  | nil => exact ⟨s, rfl, hrep⟩
  | cons capsuleType ys =>
    rw [if_neg (by simp)]
    obtain ⟨s1, shown, hpeek, hshows, hrep1⟩ := bufqPeek_spec hrep
    obtain ⟨more, rfl⟩ := Shows.cons hshows
    rw [hpeek, Option.bind_some]
    dsimp only
    by_cases htype : capsuleType = 0
    · subst htype
      rw [if_neg (by simp)]
      exact processCapsule_spec hrep1 len
    · obtain ⟨s2, hskip, hrep2⟩ := skipping_spec hrep1 1 .recvError
      rw [List.drop_one, List.tail_cons] at hrep2
      rw [if_pos htype, hskip]
      exact ⟨s2, by simp [readCapsule, htype], by simpa [readCapsule, htype] using hrep2⟩

/-! ### Sending -/

theorem writeAll_spec (hrep : Rep s xs) (buf : Bytes) :
    ∃ s' res ys, writeAll s buf = some (s', res) ∧ Rep s' ys ∧ (res = .ok → ys = xs ++ buf) := by
  obtain ⟨s', res, n, hwrite, hle, hrep', -⟩ := bufqWrite_spec buf hrep
  refine ⟨s', _, _, by rw [writeAll, hwrite, Option.map_some], hrep', fun hok => ?_⟩
  split at hok
  · cases hok
  · rename_i hpartial
    split at hok
    · cases hok
    · have hall : n = buf.length := by
        by_contra hne
        exact hpartial ⟨hok, hne⟩
      rw [hall, List.take_length]

theorem capsuleEncapUdpDatagram_spec (hrep : Rep s xs) (mallocs : Nat) (p : Bytes) :
    ∃ s' res ys, capsuleEncapUdpDatagram s (mallocs, p) = some (s', res) ∧ Rep s' ys ∧
      (res = .ok → ys = xs ++ capsule p) := by
  have hheader : capsuleEncapUdpHdr httpCapsuleHeaderMaxSize p.length ≠ [] := by
    simp [capsuleEncapUdpHdr]
  obtain ⟨s1, res1, ys1, hwrite1, hrep1, hok1⟩ :=
    writeAll_spec (hrep.withMallocs mallocs) (capsuleEncapUdpHdr httpCapsuleHeaderMaxSize p.length)
  unfold capsuleEncapUdpDatagram
  simp only [hheader, if_false, hwrite1, Option.bind_eq_bind, Option.bind_some]
  split
  · rename_i hfail
    exact ⟨s1, res1, ys1, rfl, hrep1, fun hok => absurd hok hfail⟩
  · rename_i hok
    rw [not_not] at hok
    obtain ⟨s2, res2, ys2, hwrite2, hrep2, hok2⟩ := writeAll_spec hrep1 p
    refine ⟨s2, res2, ys2, hwrite2, hrep2, fun hok' => ?_⟩
    rw [hok2 hok', hok1 hok, capsule, List.append_assoc]

/-- The stream of capsules of some datagrams. -/
def capsules (datagrams : List Bytes) : Bytes := datagrams.flatMap capsule

theorem encap_all (hrep : Rep s xs) (sends : List (Nat × Bytes)) :
    ∃ s' results ys, Refine.calls capsuleEncapUdpDatagram s sends = some (s', results) ∧
      Rep s' ys ∧ ((∀ r ∈ results, r = .ok) → ys = xs ++ capsules (sends.map Prod.snd)) := by
  induction sends generalizing s xs with
  | nil => exact ⟨s, [], xs, rfl, hrep, by simp [capsules]⟩
  | cons send sends ih =>
    obtain ⟨mallocs, p⟩ := send
    obtain ⟨s1, res, ys1, hencap, hrep1, hok1⟩ := capsuleEncapUdpDatagram_spec hrep mallocs p
    obtain ⟨s2, results, ys2, hcalls, hrep2, hok2⟩ := ih hrep1
    refine ⟨s2, res :: results, ys2, by simp [Refine.calls, hencap, hcalls], hrep2, fun hall => ?_⟩
    rw [hok2 fun r hr => hall r (List.mem_cons_of_mem _ hr), hok1 (hall res List.mem_cons_self)]
    simp [capsules]

/-! ### Receiving -/

/-- Call until there is no more datagram, and collect what the calls return. -/
def takeDatagrams (len : Nat) : Nat → State → Option (State × List UdpRead)
  | 0, _ => none
  | fuel + 1, s => do
    let (s, read) ← capsuleProcessUdpRaw s len
    if read.err = .again then some (s, [read])
    else
      let (s, reads) ← takeDatagrams len fuel s
      some (s, read :: reads)

/-- The pieces arrive one after the other, and datagrams are taken after each of them. There is no
result when the queue does not take a piece as a whole. -/
def receive (len fuel : Nat) : State → List (Nat × Bytes) →
    Option (State × Option (List UdpRead))
  | s, [] => some (s, some [])
  | s, (mallocs, piece) :: pieces => do
    let (s, _, n) ← bufqWrite { s with mallocs } piece
    if n ≠ piece.length then some (s, none)
    else
      let (s, reads) ← takeDatagrams len fuel s
      let (s, more) ← receive len fuel s pieces
      some (s, more.map (reads ++ ·))

/-- The reads of a run, without those that return `CURLE_AGAIN`. -/
def taken (reads : List UdpRead) : List UdpRead := reads.filter (·.err ≠ .again)

theorem taken_append (reads more : List UdpRead) :
    taken (reads ++ more) = taken reads ++ taken more :=
  List.filter_append reads more

variable {ps : List Bytes} {fuel : Nat}

/-- The datagrams that are in the queue as a whole are taken, and the rest stays. -/
theorem takeDatagrams_spec (hlen : 0 < len) (hfits : ∀ p ∈ ps, Fits len p) (hrep : Rep s xs)
    (hstream : xs ++ zs = capsules ps) (hfuel : ps.length < fuel) :
    ∃ s' reads got left ys, takeDatagrams len fuel s = some (s', reads) ∧ ps = got ++ left ∧
      taken reads = got.map (⟨.ok, ·⟩) ∧ Rep s' ys ∧ ys ++ zs = capsules left ∧
      (zs = [] → left = []) := by
  induction ps generalizing s xs fuel with
  | nil =>
    obtain ⟨fuel, rfl⟩ : ∃ k, fuel = k + 1 := ⟨fuel - 1, by omega⟩
    obtain ⟨rfl, rfl⟩ := List.append_eq_nil_iff.mp hstream
    obtain ⟨s1, hcall, hrep1⟩ := capsuleProcessUdpRaw_spec hrep hlen
    exact ⟨s1, [⟨.again, []⟩], [], [], [],
      by simp [takeDatagrams, hcall, readCapsule], rfl, rfl, hrep1, rfl, fun _ => rfl⟩
  | cons p ps ih =>
    obtain ⟨fuel, rfl⟩ : ∃ k, fuel = k + 1 := ⟨fuel - 1, by omega⟩
    have hp := hfits p List.mem_cons_self
    obtain ⟨s1, hcall, hrep1⟩ := capsuleProcessUdpRaw_spec hrep hlen
    have hcons : xs ++ zs = capsule p ++ capsules ps := by simpa [capsules] using hstream
    rcases Nat.lt_or_ge xs.length (capsule p).length with hshort | hwhole
    · have hfront : xs <+: capsule p :=
        List.prefix_of_prefix_length_le ⟨zs, hcons⟩ (List.prefix_append _ _) hshort.le
      rw [readCapsule_short hp hfront hshort] at hcall hrep1
      refine ⟨s1, [⟨.again, []⟩], [], p :: ps, xs, by simp [takeDatagrams, hcall], rfl, rfl, hrep1,
        hstream, ?_⟩
      rintro rfl
      have := congrArg List.length hcons
      rw [List.length_append, List.length_append, List.length_nil] at this
      omega
    · obtain ⟨ws, rfl⟩ : capsule p <+: xs :=
        List.prefix_of_prefix_length_le ⟨capsules ps, hcons.symm⟩ (List.prefix_append _ _) hwhole
      rw [readCapsule_capsule hp] at hcall hrep1
      rw [List.append_assoc, List.append_cancel_left_eq] at hcons
      have hfuel' : ps.length < fuel := by simpa using hfuel
      obtain ⟨s2, reads, got, left, ys, htake, rfl, htaken, hrep2, hstream2, hend⟩ :=
        ih (fun q hq => hfits q (List.mem_cons_of_mem _ hq)) hrep1 hcons hfuel'
      refine ⟨s2, ⟨.ok, p⟩ :: reads, p :: got, left, ys, by simp [takeDatagrams, hcall, htake], rfl,
        ?_, hrep2, hstream2, hend⟩
      simpa [taken] using htaken

/-- All datagrams are taken, in order. -/
theorem receive_spec (hlen : 0 < len) (hfits : ∀ p ∈ ps, Fits len p) (hrep : Rep s xs)
    (pieces : List (Nat × Bytes))
    (hstream : xs ++ pieces.flatMap Prod.snd = capsules ps) (hfuel : ps.length < fuel)
    (hstart : pieces = [] → ps = []) :
    ∃ s' result, receive len fuel s pieces = some (s', result) ∧
      ∀ reads, result = some reads → taken reads = ps.map (⟨.ok, ·⟩) := by
  induction pieces generalizing s xs ps with
  | nil =>
    rw [hstart rfl]
    refine ⟨s, some [], rfl, ?_⟩
    rintro reads ⟨⟩
    rfl
  | cons arrival pieces ih =>
    obtain ⟨mallocs, piece⟩ := arrival
    obtain ⟨s1, res, n, hwrite, -, hrep1, -⟩ := bufqWrite_spec piece (hrep.withMallocs mallocs)
    rw [receive, hwrite]
    simp only [Option.bind_eq_bind, Option.bind_some]
    split
    · exact ⟨s1, none, rfl, nofun⟩
    · rename_i hall
      rw [not_not] at hall
      rw [hall, List.take_length] at hrep1
      rw [List.flatMap_cons, ← List.append_assoc] at hstream
      obtain ⟨s2, reads, got, left, ys, htake, rfl, htaken, hrep2, hstream2, hend⟩ :=
        takeDatagrams_spec hlen hfits hrep1 hstream hfuel
      have hleft : left.length < fuel := by
        rw [List.length_append] at hfuel
        omega
      obtain ⟨s3, result, hreceive, hresult⟩ :=
        ih (fun q hq => hfits q (List.mem_append_right _ hq)) hrep2 hstream2 hleft fun hnil =>
          hend (by rw [hnil]; rfl)
      rw [htake, Option.bind_some, hreceive, Option.bind_some]
      refine ⟨s3, _, rfl, fun all hall => ?_⟩
      obtain ⟨more, hmore, rfl⟩ := Option.map_eq_some_iff.mp hall
      rw [taken_append, htaken, hresult more hmore, List.map_append]

/-! ### From end to end -/

/-- The datagrams go through any two queues, the stream between them cut in any way, and come out in
order, each of them once. A call that returns `CURLE_AGAIN` leaves the bytes in the queue. -/
structure RoundTrips (len : Nat) (datagrams : List Bytes) : Prop where
  datagrams : ∀ {sendq recvq : State} {sends : List (Nat × Bytes)}, Rep sendq [] →
    Rep recvq [] → sends.map Prod.snd = datagrams →
    ∃ s results stream, Refine.calls capsuleEncapUdpDatagram sendq sends = some (s, results) ∧
      Rep s stream ∧ ((∀ r ∈ results, r = .ok) → ∀ pieces : List (Nat × Bytes),
        pieces.flatMap Prod.snd = stream → ∃ fuel s' result,
          receive len fuel recvq pieces = some (s', result) ∧
          ∀ reads, result = some reads → taken reads = datagrams.map (⟨.ok, ·⟩))
  again : ∀ {s : State} {xs : Bytes}, Rep s xs →
    ∃ s' read, capsuleProcessUdpRaw s len = some (s', read) ∧ (read.err = .again → Rep s' xs)

theorem capsules_ne_nil (h : ps ≠ []) : capsules ps ≠ [] := by
  obtain ⟨p, ps, rfl⟩ := List.exists_cons_of_ne_nil h
  simp [capsules, capsule_eq]

/-- Datagrams that fit into the buffer and into a capsule make the round trip. -/
theorem datagrams_round_trip (hlen : 0 < len) (hfits : ∀ p ∈ ps, Fits len p) :
    RoundTrips len ps where
  datagrams {sendq recvq sends} hsend hrecv hsends := by
    obtain ⟨s, results, stream, hcalls, hrep, hstream⟩ := encap_all hsend sends
    refine ⟨s, results, stream, hcalls, hrep, fun hok pieces hpieces => ⟨ps.length + 1, ?_⟩⟩
    rw [hstream hok, hsends, List.nil_append] at hpieces
    refine receive_spec hlen hfits hrecv pieces hpieces (Nat.lt_succ_self _) fun hnil => ?_
    by_contra hne
    rw [hnil] at hpieces
    exact capsules_ne_nil hne hpieces.symm
  again {s xs} hrep := by
    obtain ⟨s', hcall, hrep'⟩ := capsuleProcessUdpRaw_spec hrep hlen
    refine ⟨s', _, hcall, fun hagain => ?_⟩
    rwa [readCapsule_again hagain] at hrep'

theorem datagrams_round_trip_two : RoundTrips 2 [[7, 8], []] := by
  refine datagrams_round_trip (by decide) fun p hp => ?_
  rcases List.mem_cons.mp hp with rfl | hp
  · exact ⟨by decide, by decide⟩
  · rw [List.mem_singleton.mp hp]
    exact ⟨by decide, by decide⟩

/-- Without a buffer, no datagram is taken, and the calls never return `CURLE_AGAIN`. -/
theorem takeDatagrams_zero (fuel : Nat) (s : State) : takeDatagrams 0 fuel s = none := by
  induction fuel with
  | zero => rfl
  | succ fuel ih => simp [takeDatagrams, capsuleProcessUdpRaw, ih]

/-- An empty queue with chunks of 16 bytes. -/
def queue16 : State := bufqInit2 .empty 16 4 false false

theorem queue16_rep : Rep queue16 [] :=
  rep_init 4 false false (by decide) ⟨[], rfl, List.nodup_nil, fun _ hp => nomatch hp⟩

/-- An empty datagram fits into a buffer of no bytes, and does not come out. -/
theorem datagrams_stuck : Fits 0 [] ∧ ¬ RoundTrips 0 [[]] := by
  refine ⟨⟨by decide, by decide⟩, fun h => ?_⟩
  have hsends : [((8 : Nat), ([] : Bytes))].map Prod.snd = [[]] := rfl
  obtain ⟨s, results, stream, hcalls, hrep, hround⟩ := h.datagrams queue16_rep queue16_rep hsends
  obtain ⟨s', results', ys, hcalls', hrep', hys⟩ := encap_all queue16_rep [(8, [])]
  rw [hcalls, Option.some.injEq, Prod.mk.injEq] at hcalls'
  obtain ⟨rfl, rfl⟩ := hcalls'
  have hview : (Refine.calls capsuleEncapUdpDatagram queue16 [(8, [])]).map Prod.snd =
      some [.ok] := by decide
  rw [hcalls, Option.map_some, Option.some.injEq] at hview
  have hok : ∀ r ∈ results, r = .ok := by
    rw [show results = [.ok] from hview]
    simp
  have hstream : stream = [0, 1, 0] := (hrep.unique hrep').trans (hys hok)
  obtain ⟨fuel, s1, result, hreceive, -⟩ := hround hok [(8, [0, 1, 0])] hstream.symm
  obtain ⟨s2, res, n, hwrite, -⟩ := bufqWrite_spec [0, 1, 0] (queue16_rep.withMallocs 8)
  have hall : (bufqWrite { queue16 with mallocs := 8 } [0, 1, 0]).map (·.2.2) = some 3 := by decide
  rw [hwrite, Option.map_some, Option.some.injEq] at hall
  obtain rfl : n = 3 := hall
  rw [receive, hwrite] at hreceive
  simp [takeDatagrams_zero] at hreceive

end Gurl.Vquic
