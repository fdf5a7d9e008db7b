import Gurl.Curlcode
import Gurl.Lib.Heap

/-! The chunks of `lib/bufq.c`: a buffer of a fixed size with a read and a write offset. -/

namespace Gurl.Buffer

open LinkedHeap

/-- `struct buf_chunk`. -/
structure BufChunk where
  next : Option Ptr
  dlen : Nat
  rOffset : Nat
  wOffset : Nat
  data : Bytes

def chunkIsEmpty (c : BufChunk) : Bool := c.rOffset ≥ c.wOffset

def chunkIsFull (c : BufChunk) : Bool := c.wOffset ≥ c.dlen

def chunkLen (c : BufChunk) : Nat := c.wOffset - c.rOffset

def chunkReset (c : BufChunk) : BufChunk := { c with next := none, rOffset := 0, wOffset := 0 }

/-- `data` with `bytes` from `offset` on. -/
def memcpy (data : Bytes) (offset : Nat) (bytes : Bytes) : Bytes :=
  data.take offset ++ bytes ++ data.drop (offset + bytes.length)

/-- The chunk with as much of `buf` as it has room for, and the number of bytes taken. -/
def chunkAppend (c : BufChunk) (buf : Bytes) : BufChunk × Nat :=
  let n := c.dlen - c.wOffset
  if n ≠ 0 then
    let n := min n buf.length
    ({ c with data := memcpy c.data c.wOffset (buf.take n), wOffset := c.wOffset + n }, n)
  else (c, n)

/-- The chunk without the first `len` unread bytes, and these bytes. -/
def chunkRead (c : BufChunk) (len : Nat) : BufChunk × Bytes :=
  let n := c.wOffset - c.rOffset
  if n = 0 then (c, [])
  else if n ≤ len then
    ({ c with rOffset := 0, wOffset := 0 }, (c.data.drop c.rOffset).take n)
  else ({ c with rOffset := c.rOffset + len }, (c.data.drop c.rOffset).take len)

/-- What a reader returns: its result and the bytes that it has put into the buffer, `*pnread` of
them. -/
structure Reply where
  result : Curlcode
  bytes : Bytes

/-- `Curl_bufq_reader`, with the number of calls before: it returns no more than was asked for. -/
structure Reader where
  reply : Nat → Nat → Reply
  bounded : ∀ call len, (reply call len).bytes.length ≤ len

/-- The number of bytes that `chunk_slurpn` asks for. -/
def slurpSize (c : BufChunk) (maxLen : Nat) : Nat :=
  let n := c.dlen - c.wOffset
  if maxLen ≠ 0 ∧ n > maxLen then maxLen else n

/-- `chunk_slurpn`: the reader fills the buffer also where it fails, but then the write offset stays
where it is. -/
def chunkSlurpn (c : BufChunk) (reply : Reply) : BufChunk :=
  let c := { c with data := memcpy c.data c.wOffset reply.bytes }
  if reply.result = .ok then { c with wOffset := c.wOffset + reply.bytes.length } else c

def chunkPeek (c : BufChunk) : Bytes :=
  (c.data.drop c.rOffset).take (c.wOffset - c.rOffset)

def chunkPeekAt (c : BufChunk) (offset : Nat) : Bytes :=
  let offset := offset + c.rOffset
  (c.data.drop offset).take (c.wOffset - offset)

/-- The chunk without up to `amount` unread bytes, and how many were skipped. -/
def chunkSkip (c : BufChunk) (amount : Nat) : BufChunk × Nat :=
  let n := c.wOffset - c.rOffset
  if n ≠ 0 then
    let n := min n amount
    let c := { c with rOffset := c.rOffset + n }
    (if c.rOffset = c.wOffset then { c with rOffset := 0, wOffset := 0 } else c, n)
  else (c, n)

/-! ### The bytes of a chunk -/

/-- The bytes that were written and not read. -/
def BufChunk.unread (c : BufChunk) : Bytes :=
  (c.data.drop c.rOffset).take (c.wOffset - c.rOffset)

/-- A chunk of the given size, with offsets that lie in its buffer, at its start when all was
read. -/
structure BufChunk.Sound (size : Nat) (c : BufChunk) : Prop where
  dlen : c.dlen = size
  data : c.data.length = size
  read : c.rOffset ≤ c.wOffset
  write : c.wOffset ≤ size
  start : c.rOffset = c.wOffset → c.wOffset = 0

variable {size : Nat} {c : BufChunk}

theorem unread_length (h : c.Sound size) : c.unread.length = chunkLen c := by
  have hdata := h.data
  have hwrite := h.write
  rw [BufChunk.unread, chunkLen, List.length_take, List.length_drop]
  omega

theorem unread_eq_nil_iff (h : c.Sound size) : c.unread = [] ↔ chunkIsEmpty c = true := by
  rw [← List.length_eq_zero_iff, unread_length h]
  simp only [chunkLen, chunkIsEmpty, ge_iff_le, decide_eq_true_eq]
  omega

theorem length_memcpy {data bytes : Bytes} {offset : Nat}
    (h : offset + bytes.length ≤ data.length) :
    (memcpy data offset bytes).length = data.length := by
  simp only [memcpy, List.length_append, List.length_take, List.length_drop]
  omega

/-- What was unread is followed by what is copied behind it. -/
theorem unread_memcpy (h : c.Sound size) (bytes : Bytes) (n : Nat)
    (hle : c.wOffset + bytes.length ≤ c.dlen) (hn : n ≤ bytes.length) :
    BufChunk.unread { c with data := memcpy c.data c.wOffset bytes, wOffset := c.wOffset + n } =
      c.unread ++ bytes.take n := by
  have hread := h.read
  have hdata := h.data
  have hdlen := h.dlen
  have htake : (c.data.take c.wOffset).length = c.wOffset := by
    rw [List.length_take]
    omega
  unfold BufChunk.unread memcpy
  dsimp only
  rw [List.append_assoc, List.drop_append_of_le_length (by omega), List.take_append]
  have hlen : ((c.data.take c.wOffset).drop c.rOffset).length = c.wOffset - c.rOffset := by
    rw [List.length_drop, htake]
  rw [List.take_of_length_le (by omega), hlen, List.drop_take]
  congr 1
  rw [show c.wOffset + n - c.rOffset - (c.wOffset - c.rOffset) = n by omega,
    List.take_append_of_le_length (by omega)]

/-- `c'` is `c` with other bytes: its place in a list is the same. -/
structure Rewritten (size : Nat) (c c' : BufChunk) : Prop where
  sound : c'.Sound size
  next : c'.next = c.next

theorem chunkAppend_rOffset (c : BufChunk) (buf : Bytes) :
    (chunkAppend c buf).1.rOffset = c.rOffset := by
  unfold chunkAppend
  dsimp only
  split <;> rfl

theorem chunkAppend_rewritten (h : c.Sound size) (buf : Bytes) :
    Rewritten size c (chunkAppend c buf).1 := by
  have hdlen := h.dlen
  have hdata := h.data
  have hread := h.read
  unfold chunkAppend
  dsimp only
  split
  · have hstart := h.start
    refine ⟨⟨h.dlen, ?_, ?_, ?_, ?_⟩, rfl⟩
    · rw [length_memcpy (by rw [List.length_take]; omega)]
      exact h.data
    · dsimp only
      omega
    · dsimp only
      omega
    · dsimp only
      omega
  · exact ⟨h, rfl⟩

theorem chunkAppend_count (c : BufChunk) (buf : Bytes) :
    (chunkAppend c buf).2 = min (c.dlen - c.wOffset) buf.length := by
  unfold chunkAppend
  dsimp only
  split
  · rfl
  · omega

theorem chunkAppend_unread (h : c.Sound size) (buf : Bytes) :
    (chunkAppend c buf).1.unread = c.unread ++ buf.take (chunkAppend c buf).2 := by
  unfold chunkAppend
  dsimp only
  split
  · have hlen : (buf.take (min (c.dlen - c.wOffset) buf.length)).length =
        min (c.dlen - c.wOffset) buf.length := by
      rw [List.length_take]
      omega
    rw [unread_memcpy h _ _ (by omega) (by omega), List.take_take, Nat.min_self]
  · rename_i hfull
    rw [show c.dlen - c.wOffset = 0 by omega, List.take_zero, List.append_nil]

theorem chunkRead_rewritten (h : c.Sound size) (len : Nat) :
    Rewritten size c (chunkRead c len).1 := by
  unfold chunkRead
  dsimp only
  split_ifs
  · exact ⟨h, rfl⟩
  · exact ⟨⟨h.dlen, h.data, Nat.le_refl 0, Nat.zero_le _, fun _ => rfl⟩, rfl⟩
  · refine ⟨⟨h.dlen, h.data, ?_, h.write, ?_⟩, rfl⟩ <;> dsimp only <;> omega

theorem chunkRead_bytes (c : BufChunk) (len : Nat) :
    (chunkRead c len).2 = c.unread.take len := by
  unfold chunkRead BufChunk.unread
  dsimp only
  split_ifs with hempty hall
  · rw [hempty]
    simp
  · dsimp only
    rw [List.take_take]
    congr 1
    omega
  · dsimp only
    rw [List.take_take]
    congr 1
    omega

theorem chunkRead_unread (c : BufChunk) (len : Nat) :
    (chunkRead c len).1.unread = c.unread.drop len := by
  unfold chunkRead BufChunk.unread
  dsimp only
  split_ifs with hempty hall
  · simp [hempty]
  · dsimp only
    rw [List.drop_take, Nat.sub_eq_zero_of_le hall]
    simp
  · dsimp only
    rw [List.drop_take, List.drop_drop]
    congr 1
    omega

/-- A chunk that is not read to its end keeps its write offset. -/
theorem chunkRead_offset (c : BufChunk) (len : Nat)
    (h : chunkIsEmpty (chunkRead c len).1 = false) : (chunkRead c len).1.wOffset = c.wOffset := by
  unfold chunkRead at h ⊢
  dsimp only at h ⊢
  split_ifs at h ⊢ with hempty hall
  · rfl
  · cases h
  · rfl

/-- Bytes are skipped as they are read. -/
theorem chunkSkip_eq (h : c.Sound size) (amount : Nat) :
    chunkSkip c amount = ((chunkRead c amount).1, (c.unread.take amount).length) := by
  rw [List.length_take, unread_length h]
  unfold chunkSkip chunkRead chunkLen
  dsimp only
  by_cases hempty : c.wOffset - c.rOffset = 0
  · rw [if_neg (not_not.mpr hempty), if_pos hempty, hempty, Nat.min_zero]
  rw [if_pos hempty, if_neg hempty, Nat.min_comm]
  by_cases hall : c.wOffset - c.rOffset ≤ amount
  · rw [if_pos hall, Nat.min_eq_right hall, if_pos (by omega)]
  · rw [if_neg hall, Nat.min_eq_left (by omega), if_neg (by omega)]

theorem slurpSize_le (c : BufChunk) (maxLen : Nat) : slurpSize c maxLen ≤ c.dlen - c.wOffset := by
  unfold slurpSize
  dsimp only
  split <;> omega

theorem chunkSlurpn_rewritten (h : c.Sound size) {reply : Reply}
    (hle : reply.bytes.length ≤ c.dlen - c.wOffset) : Rewritten size c (chunkSlurpn c reply) := by
  have hdlen := h.dlen
  have hread := h.read
  have hwrite := h.write
  have hlength : (memcpy c.data c.wOffset reply.bytes).length = size := by
    rw [length_memcpy (by rw [h.data]; omega), h.data]
  unfold chunkSlurpn
  dsimp only
  split
  · have hstart := h.start
    refine ⟨⟨h.dlen, hlength, ?_, ?_, ?_⟩, rfl⟩ <;> dsimp only <;> omega
  · exact ⟨⟨h.dlen, hlength, h.read, h.write, h.start⟩, rfl⟩

theorem chunkSlurpn_rOffset (c : BufChunk) (reply : Reply) :
    (chunkSlurpn c reply).rOffset = c.rOffset := by
  unfold chunkSlurpn
  split <;> rfl

/-- The bytes that a reader's reply adds to the queue. -/
def Reply.added (reply : Reply) : Bytes := if reply.result = .ok then reply.bytes else []

theorem chunkSlurpn_unread (h : c.Sound size) {reply : Reply}
    (hle : reply.bytes.length ≤ c.dlen - c.wOffset) :
    (chunkSlurpn c reply).unread = c.unread ++ reply.added := by
  have hdlen := h.dlen
  have hwrite := h.write
  unfold chunkSlurpn Reply.added
  dsimp only
  split
  · rw [unread_memcpy h _ _ (by omega) (Nat.le_refl _), List.take_length]
  · have hzero := unread_memcpy h reply.bytes 0 (by omega) (Nat.zero_le _)
    rw [Nat.add_zero, List.take_zero] at hzero
    exact hzero

theorem chunkPeekAt_eq (c : BufChunk) (offset : Nat) :
    chunkPeekAt c offset = c.unread.drop offset := by
  unfold chunkPeekAt BufChunk.unread
  dsimp only
  rw [List.drop_take, List.drop_drop, Nat.add_comm c.rOffset offset, Nat.sub_sub,
    Nat.add_comm c.rOffset offset]

end Gurl.Buffer
