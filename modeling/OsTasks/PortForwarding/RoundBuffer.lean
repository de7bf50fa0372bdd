import Mathlib.Tactic.SplitIfs
import OsTasks.Library.Ring

/-!
# The round buffer of the port forwarder

`round_buffer.c` keeps the bytes of one direction of a connection in a circular array. The fields
`offset`, `length` and `capacity` are those of the C structure; the bounds `offset < capacity` and
`length ≤ capacity`, which every operation of the file keeps, are fields of the Lean structure.
The array is a function from addresses to bytes, so that an address is the distance from `buffer`.

The vectored system calls are modelled with their contract only: `readv` fills the offered regions
in order with some bytes, `writev` takes some bytes from the offered regions in order, either may
fail with an error number.

## Main definitions

* `RoundBuffer`, `bufCreate`, `bufFull`, `bufEmpty`, `bufDataLength`, `bufFreeLength`.
* `bufWritingIov`, `bufReadingIov`: the regions offered to `readv` and to `writev`.
* `bufAdvanceReadPtr`, `bufAdvanceWritePtr`, `bufPeekByte`, `bufPeek`, `bufWrite`, `bufRead`.
* `RoundBuffer.contents`: the unread bytes, oldest first.
* `RoundBuffer.Unwrapped`: the unread bytes do not run past the end of the array.

## Main results

* `iovAddrs_bufReadingIov`: the reading regions are the unread bytes, in every state.
* `iovAddrs_bufWritingIov`: the writing regions are the free cells, when the data do not wrap.
* `contents_bufAdvanceReadPtr`, `contents_put`: what the two pointers do to the unread bytes.
-/

namespace OsTasks.PortForwarding

/-! ### System call results -/

/-- The error numbers the program distinguishes. -/
inductive Errno
  | eagain
  | eintr
  | econnreset
  | epipe
  | other
  deriving DecidableEq

/-- What `readv` delivers: some bytes (none at end of file) or an error. -/
inductive ReadResult
  | bytes (bs : List UInt8)
  | error (e : Errno)

/-- What `writev` does: it takes some number of bytes or fails. -/
inductive WriteResult
  | taken (n : ℕ)
  | error (e : Errno)

/-- `struct iovec`, its base being an index into the backing array. -/
structure IoVec where
  base : ℕ
  len : ℕ
  deriving DecidableEq

/-- The addresses of the regions of an `iovec` array, in the order in which they are filled. -/
def iovAddrs (iov : List IoVec) : List ℕ :=
  iov.flatMap fun v => List.range' v.base v.len

@[simp] theorem iovAddrs_nil : iovAddrs [] = [] := rfl

@[simp] theorem iovAddrs_cons (v : IoVec) (iov : List IoVec) :
    iovAddrs (v :: iov) = List.range' v.base v.len ++ iovAddrs iov := rfl

/-- The total length of the regions of an `iovec` array. -/
def iovLength (iov : List IoVec) : ℕ := (iov.map IoVec.len).sum

theorem length_iovAddrs (iov : List IoVec) : (iovAddrs iov).length = iovLength iov := by
  simp [iovAddrs, iovLength, List.length_flatMap]

/-! ### The structure and its queries -/

/-- `struct round_buffer`, with the bounds on its fields. -/
@[ext]
structure RoundBuffer where
  offset : ℕ
  length : ℕ
  capacity : ℕ
  buffer : ℕ → UInt8
  offset_lt : offset < capacity
  length_le : length ≤ capacity

/-- A new buffer over the array `mem` that `malloc` returned. -/
def bufCreate (mem : ℕ → UInt8) (capacity : ℕ+) : RoundBuffer where
  offset := 0
  length := 0
  capacity := capacity
  buffer := mem
  offset_lt := capacity.pos
  length_le := empty_le capacity

def bufFull (buf : RoundBuffer) : Bool := buf.length == buf.capacity

def bufEmpty (buf : RoundBuffer) : Bool := buf.length == 0

def bufDataLength (buf : RoundBuffer) : ℕ := buf.length

def bufFreeLength (buf : RoundBuffer) : ℕ := buf.capacity - buf.length

/-- The regions offered for new bytes: the cells behind the unread bytes if these end before the
end of the array, then the cells in front of `offset`. -/
def bufWritingIov (buf : RoundBuffer) : List IoVec :=
  if buf.length = buf.capacity then []
  else
    let partStart := buf.offset + buf.length
    (if partStart < buf.capacity then [⟨partStart, buf.capacity - partStart⟩] else []) ++
      if 0 < buf.offset then [⟨0, buf.offset⟩] else []

/-- The regions that hold the unread bytes. -/
def bufReadingIov (buf : RoundBuffer) : List IoVec :=
  if buf.length = 0 then []
  else
    let last := buf.offset + buf.length
    if last ≤ buf.capacity then [⟨buf.offset, buf.length⟩]
    else [⟨buf.offset, buf.capacity - buf.offset⟩, ⟨0, last - buf.capacity⟩]

/-! ### Moving the pointers -/

/-- Drops `length` unread bytes, or all of them if there are fewer. A buffer that becomes empty
starts again at the beginning of its array. -/
def bufAdvanceReadPtr (buf : RoundBuffer) (length : ℕ) : RoundBuffer :=
  let n := if bufDataLength buf < length then bufDataLength buf else length
  if n = buf.length then
    { buf with
      length := 0
      offset := 0
      offset_lt := Nat.zero_lt_of_lt buf.offset_lt
      length_le := Nat.zero_le _ }
  else
    { buf with
      length := buf.length - n
      offset := (buf.offset + n) % buf.capacity
      offset_lt := Nat.mod_lt _ (Nat.zero_lt_of_lt buf.offset_lt)
      length_le := (Nat.sub_le _ _).trans buf.length_le }

/-- Counts `length` cells behind the unread bytes as unread, or all free cells if there are
fewer. -/
def bufAdvanceWritePtr (buf : RoundBuffer) (length : ℕ) : RoundBuffer :=
  { buf with
    length := buf.length + if bufFreeLength buf < length then bufFreeLength buf else length
    length_le := by
      have := buf.length_le
      unfold bufFreeLength
      split <;> omega }

/-- The oldest unread byte; `-1` in the source when there is none. -/
def bufPeekByte (buf : RoundBuffer) : Option UInt8 :=
  if bufEmpty buf then none else some (buf.buffer buf.offset)

/-- The copy loop of `buf_peek` over the reading regions. -/
def peekRegions (mem : ℕ → UInt8) : List IoVec → ℕ → List UInt8
  | [], _ => []
  | v :: iov, len =>
    if 0 < len then
      let l := if v.len < len then v.len else len
      (List.range' v.base l).map mem ++ peekRegions mem iov (len - l)
    else []

/-- The first `len` unread bytes, or all of them; `-1` in the source when there is none. -/
def bufPeek (buf : RoundBuffer) (len : ℕ) : Option (List UInt8) :=
  let iov := bufReadingIov buf
  if iov.length = 0 then none else some (peekRegions buf.buffer iov len)

/-! ### The vectored system calls -/

/-- The buffer after the bytes `bs` have been written to the offered regions in order. -/
def RoundBuffer.store (buf : RoundBuffer) (bs : List UInt8) : RoundBuffer :=
  { buf with buffer := storeAt buf.buffer (iovAddrs (bufWritingIov buf)) bs }

/-- `buf_write`: the result of `writev` (`-2` when nothing is offered), the bytes it took and the
buffer without them. -/
def bufWrite (r : WriteResult) (buf : RoundBuffer) : ℤ × List UInt8 × RoundBuffer :=
  let iov := bufReadingIov buf
  if iov.length = 0 then (-2, [], buf)
  else
    match r with
    | .error _ => (-1, [], buf)
    | .taken n =>
      let sent := ((iovAddrs iov).map buf.buffer).take n
      (sent.length, sent, bufAdvanceReadPtr buf sent.length)

/-- `buf_read`: the result of `readv` (`-2` when nothing is offered), the bytes it stored and the
buffer with them. -/
def bufRead (r : ReadResult) (buf : RoundBuffer) : ℤ × List UInt8 × RoundBuffer :=
  let iov := bufWritingIov buf
  if iov.length = 0 then (-2, [], buf)
  else
    match r with
    | .error _ => (-1, [], buf)
    | .bytes bs =>
      let got := bs.take (iovLength iov)
      (got.length, got, bufAdvanceWritePtr (buf.store got) got.length)

/-- Bytes written one by one to the offered regions, followed by `buf_advance_write_ptr`. -/
def RoundBuffer.put (buf : RoundBuffer) (bs : List UInt8) : RoundBuffer :=
  bufAdvanceWritePtr (buf.store bs) bs.length

/-! ### The unread bytes -/

namespace RoundBuffer

variable (buf : RoundBuffer)

/-- The addresses of the unread bytes, oldest first. -/
def dataAddrs : List ℕ := ringAddrs buf.capacity buf.offset buf.length

/-- The unread bytes, oldest first. -/
def contents : List UInt8 := buf.dataAddrs.map buf.buffer

/-- The unread bytes do not run past the end of the array. -/
def Unwrapped : Prop := buf.offset + buf.length ≤ buf.capacity

instance : Decidable buf.Unwrapped := inferInstanceAs (Decidable (_ ≤ _))

theorem capacity_pos : 0 < buf.capacity := Nat.zero_lt_of_lt buf.offset_lt

@[simp] theorem length_dataAddrs : buf.dataAddrs.length = buf.length := by simp [dataAddrs]

@[simp] theorem length_contents : buf.contents.length = buf.length := by simp [contents]

theorem contents_eq_nil_iff : buf.contents = [] ↔ buf.length = 0 := by
  rw [← List.length_eq_zero_iff, length_contents]

end RoundBuffer

@[simp] theorem bufFull_iff (buf : RoundBuffer) : bufFull buf = true ↔ buf.length = buf.capacity :=
  beq_iff_eq

@[simp] theorem bufEmpty_iff (buf : RoundBuffer) : bufEmpty buf = true ↔ buf.length = 0 :=
  beq_iff_eq

@[simp] theorem contents_bufCreate (mem : ℕ → UInt8) (capacity : ℕ+) :
    (bufCreate mem capacity).contents = [] := rfl

/-- The regions offered to `writev` list the unread bytes, wrapped or not. -/
theorem iovAddrs_bufReadingIov (buf : RoundBuffer) :
    iovAddrs (bufReadingIov buf) = buf.dataAddrs := by
  have hoff := buf.offset_lt
  have hlen := buf.length_le
  unfold bufReadingIov RoundBuffer.dataAddrs
  dsimp only
  split_ifs with h₀ hend
  · simp [h₀]
  · simp [ringAddrs_eq_range' hend]
  · simp [ringAddrs_eq_range'_append hoff (by omega) hlen]

/-- The regions offered to `readv` list the free cells behind the unread bytes, as long as these
do not run past the end of the array. -/
theorem iovAddrs_bufWritingIov {buf : RoundBuffer} (h : buf.Unwrapped) :
    iovAddrs (bufWritingIov buf) =
      ringAddrs buf.capacity (buf.offset + buf.length) (bufFreeLength buf) := by
  have hoff := buf.offset_lt
  have hlen := buf.length_le
  unfold RoundBuffer.Unwrapped at h
  unfold bufWritingIov bufFreeLength
  by_cases hfull : buf.length = buf.capacity
  · simp [hfull]
  · rw [if_neg hfull]
    rcases Nat.lt_or_eq_of_le h with hlt | heq
    · rw [ringAddrs_eq_range'_append hlt (by omega) (by omega),
        show buf.offset + buf.length + (buf.capacity - buf.length) - buf.capacity = buf.offset by
          omega]
      simp only [hlt, if_true]
      split_ifs with h₀
      · simp
      · have : buf.offset = 0 := by omega
        simp [this]
    · rw [heq, ← ringAddrs_mod, Nat.mod_self, ringAddrs_eq_range' (by omega)]
      have h₀ : 0 < buf.offset := by omega
      have hn : buf.capacity - buf.length = buf.offset := by omega
      simp [h₀, hn]

/-- When the unread bytes wrap and the buffer is not full, the region offered to `readv` is
everything in front of `offset`. -/
theorem bufWritingIov_of_wrapped {buf : RoundBuffer} (h : ¬ buf.Unwrapped)
    (hfull : buf.length ≠ buf.capacity) : bufWritingIov buf = [⟨0, buf.offset⟩] := by
  have hlen := buf.length_le
  unfold RoundBuffer.Unwrapped at h
  have h₀ : 0 < buf.offset := by omega
  simp [bufWritingIov, hfull, h₀]
  omega

/-- At least the free cells are offered to `readv`. -/
theorem bufFreeLength_le_length_iovAddrs (buf : RoundBuffer) :
    bufFreeLength buf ≤ (iovAddrs (bufWritingIov buf)).length := by
  by_cases h : buf.Unwrapped
  · rw [iovAddrs_bufWritingIov h, length_ringAddrs]
  · by_cases hfull : buf.length = buf.capacity
    · rw [bufFreeLength, hfull, Nat.sub_self]
      exact Nat.zero_le _
    · rw [bufWritingIov_of_wrapped h hfull]
      simp only [iovAddrs_cons, iovAddrs_nil, List.append_nil, List.length_range', bufFreeLength]
      unfold RoundBuffer.Unwrapped at h
      omega

@[simp] theorem bufWritingIov_of_full {buf : RoundBuffer} (h : buf.length = buf.capacity) :
    bufWritingIov buf = [] := by
  simp [bufWritingIov, h]

theorem length_bufReadingIov_eq_zero (buf : RoundBuffer) :
    (bufReadingIov buf).length = 0 ↔ buf.length = 0 := by
  unfold bufReadingIov
  dsimp only
  split_ifs with h₀ <;> simp [h₀]

theorem length_bufWritingIov_eq_zero (buf : RoundBuffer) :
    (bufWritingIov buf).length = 0 ↔ buf.length = buf.capacity := by
  have hlen := buf.length_le
  have hoff := buf.offset_lt
  unfold bufWritingIov
  dsimp only
  split_ifs with h₀ h₁ h₂ h₂ <;> simp [h₀]
  omega

/-! ### What the pointers do to the unread bytes -/

theorem length_bufAdvanceReadPtr (buf : RoundBuffer) (n : ℕ) :
    (bufAdvanceReadPtr buf n).length = buf.length - n := by
  unfold bufAdvanceReadPtr bufDataLength
  dsimp only
  split_ifs <;> dsimp only <;> omega

@[simp] theorem capacity_bufAdvanceReadPtr (buf : RoundBuffer) (n : ℕ) :
    (bufAdvanceReadPtr buf n).capacity = buf.capacity := by
  unfold bufAdvanceReadPtr
  dsimp only
  split_ifs <;> rfl

@[simp] theorem buffer_bufAdvanceReadPtr (buf : RoundBuffer) (n : ℕ) :
    (bufAdvanceReadPtr buf n).buffer = buf.buffer := by
  unfold bufAdvanceReadPtr
  dsimp only
  split_ifs <;> rfl

theorem peekRegions_eq (mem : ℕ → UInt8) (iov : List IoVec) (n : ℕ) :
    peekRegions mem iov n = ((iovAddrs iov).take n).map mem := by
  induction iov generalizing n with
  | nil => simp [peekRegions]
  | cons v iov ih =>
    rw [peekRegions, iovAddrs_cons, List.take_append, List.map_append, List.length_range']
    by_cases hn : 0 < n
    · rw [if_pos hn]
      by_cases hlen : v.len < n
      · simp only [if_pos hlen, ih]
        rw [List.take_range'_of_length_le hlen.le]
      · simp only [if_neg hlen, ih]
        rw [Nat.sub_self, Nat.sub_eq_zero_of_le (by omega),
          List.take_range'_of_length_ge (by omega)]
    · simp [show n = 0 by omega]

/-- `buf_peek` shows the oldest unread bytes. -/
theorem bufPeek_eq {buf : RoundBuffer} (h : buf.length ≠ 0) (n : ℕ) :
    bufPeek buf n = some (buf.contents.take n) := by
  unfold bufPeek
  dsimp only
  rw [if_neg (fun hnil => h ((length_bufReadingIov_eq_zero buf).mp hnil)), peekRegions_eq,
    iovAddrs_bufReadingIov, List.map_take]
  rfl

/-- `buf_peek_byte` shows the oldest unread byte. -/
theorem bufPeekByte_eq (buf : RoundBuffer) : bufPeekByte buf = buf.contents.head? := by
  have hoff := buf.offset_lt
  unfold bufPeekByte
  split_ifs with hempty
  · rw [buf.contents_eq_nil_iff.mpr ((bufEmpty_iff buf).mp hempty)]
    rfl
  · rw [bufEmpty_iff] at hempty
    have hsucc : buf.length = buf.length - 1 + 1 := by omega
    rw [RoundBuffer.contents, RoundBuffer.dataAddrs, hsucc, ringAddrs_succ, Nat.mod_eq_of_lt hoff]
    rfl

/-- Advancing the reading pointer drops the oldest unread bytes. -/
theorem contents_bufAdvanceReadPtr (buf : RoundBuffer) (n : ℕ) :
    (bufAdvanceReadPtr buf n).contents = buf.contents.drop n := by
  have hlen := length_bufAdvanceReadPtr buf n
  by_cases hn : buf.length ≤ n
  · rw [List.drop_of_length_le (by simpa using hn), RoundBuffer.contents_eq_nil_iff, hlen]
    omega
  · have hoffset : (bufAdvanceReadPtr buf n).offset = (buf.offset + n) % buf.capacity := by
      have h₁ : ¬ buf.length < n := by omega
      have h₂ : ¬ n = buf.length := by omega
      simp [bufAdvanceReadPtr, bufDataLength, h₁, h₂]
    have hsplit : buf.length = n + (buf.length - n) := by omega
    have hdata : buf.dataAddrs = ringAddrs buf.capacity buf.offset n ++
        ringAddrs buf.capacity (buf.offset + n) (buf.length - n) := by
      rw [RoundBuffer.dataAddrs, ← ringAddrs_append, ← hsplit]
    have hdrop : buf.dataAddrs.drop n =
        ringAddrs buf.capacity (buf.offset + n) (buf.length - n) := by
      rw [hdata, List.drop_left' (length_ringAddrs _ _ _)]
    rw [RoundBuffer.contents, RoundBuffer.contents, ← List.map_drop, hdrop]
    rw [RoundBuffer.dataAddrs, hlen, hoffset, capacity_bufAdvanceReadPtr, ringAddrs_mod,
      buffer_bufAdvanceReadPtr]

theorem length_bufAdvanceWritePtr (buf : RoundBuffer) (n : ℕ) :
    (bufAdvanceWritePtr buf n).length = min (buf.length + n) buf.capacity := by
  have := buf.length_le
  change (buf.length + if bufFreeLength buf < n then bufFreeLength buf else n) = _
  unfold bufFreeLength
  split <;> omega

theorem length_put (buf : RoundBuffer) (bs : List UInt8) :
    (buf.put bs).length = min (buf.length + bs.length) buf.capacity :=
  length_bufAdvanceWritePtr _ _

@[simp] theorem capacity_put (buf : RoundBuffer) (bs : List UInt8) :
    (buf.put bs).capacity = buf.capacity := rfl

@[simp] theorem offset_put (buf : RoundBuffer) (bs : List UInt8) :
    (buf.put bs).offset = buf.offset := rfl

/-- A store of no byte leaves the buffer as it was. -/
@[simp] theorem put_nil (buf : RoundBuffer) : buf.put [] = buf := by
  simp [RoundBuffer.put, RoundBuffer.store, bufAdvanceWritePtr]

/-- The unread cells and the free cells of a buffer are disjoint. -/
theorem disjoint_dataAddrs_free (buf : RoundBuffer) :
    List.Disjoint buf.dataAddrs
      (ringAddrs buf.capacity (buf.offset + buf.length) (bufFreeLength buf)) := by
  have := buf.length_le
  exact ringAddrs_disjoint (by unfold bufFreeLength; omega)

/-- Bytes put through the offered regions come behind the unread bytes, as long as these do not
run past the end of the array. -/
theorem contents_put {buf : RoundBuffer} (h : buf.Unwrapped) {bs : List UInt8}
    (hbs : bs.length ≤ bufFreeLength buf) : (buf.put bs).contents = buf.contents ++ bs := by
  have hlen : (buf.put bs).length = buf.length + bs.length := by
    have := buf.length_le
    rw [length_put]
    unfold bufFreeLength at hbs
    omega
  let fresh := ringAddrs buf.capacity (buf.offset + buf.length) bs.length
  have hfree : ringAddrs buf.capacity (buf.offset + buf.length) (bufFreeLength buf) =
      fresh ++ ringAddrs buf.capacity (buf.offset + buf.length + bs.length)
        (bufFreeLength buf - bs.length) := by
    rw [← ringAddrs_append, Nat.add_sub_cancel' hbs]
  have hbuffer : (buf.put bs).buffer = storeAt buf.buffer fresh bs := by
    change storeAt buf.buffer (iovAddrs (bufWritingIov buf)) bs = _
    rw [iovAddrs_bufWritingIov h, hfree]
    rw [← storeAt_take, List.take_left' (length_ringAddrs _ _ _)]
  have hold : List.Disjoint buf.dataAddrs fresh :=
    ringAddrs_disjoint (by have := buf.length_le; unfold bufFreeLength at hbs; omega)
  have hnd : fresh.Nodup := ringAddrs_nodup (hbs.trans (Nat.sub_le _ _))
  rw [RoundBuffer.contents, RoundBuffer.dataAddrs, hlen, capacity_put, offset_put,
    ringAddrs_append, List.map_append, hbuffer]
  rw [map_storeAt_self hnd (length_ringAddrs _ _ _)]
  exact congrArg (· ++ bs) (map_storeAt_of_disjoint hold)

end OsTasks.PortForwarding
