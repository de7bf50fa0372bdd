import OsTasks.PortForwarding.RoundBuffer

/-!
# Frames in the tunnel

The byte level of `pump.c`. A frame is `END id payload END`, the payload with every `END` and `ESC`
byte preceded by `ESC`; a command is `END 0 cmd arg END`, nothing escaped. `encode` and
`encode_command` append a frame to the output buffer of the tunnel, `decode` delivers the payload
of a frame to the output buffer of a connection.

Bytes are read and written through iterators over the regions of a buffer. The iterator counts the
rest of its region in a `size_t`, which it decrements also when it is zero. A read outside the
array of a buffer returns what the memory holds there, given by a function `wild`.

## Main definitions

* `BufIter`, `prepareBufIter`, `bufIterNext`, `getReadIter`, `getWriteIter`.
* `encode`, `decode`, `encodeCommand`.
-/

namespace OsTasks.PortForwarding

/-- `END_BYTE`. -/
def endByte : UInt8 := 0x7E

/-- `ESC_BYTE`. -/
def escByte : UInt8 := 0x7F

/-! ### Iterators -/

/-- `struct buf_iter`; `iov_cnt` is the length of `iov`. -/
structure BufIter where
  iov : List IoVec
  iovInd : ℕ
  ptr : ℕ
  rem : ℕ

/-- An iterator at the first byte of the first region. Without a region the source leaves `ptr`
and `rem` undefined, and no caller uses them. -/
def prepareBufIter (iov : List IoVec) : BufIter :=
  match iov with
  | [] => ⟨[], 0, 0, 0⟩
  | v :: iov => ⟨v :: iov, 0, v.base, v.len⟩

/-- `--rem` on a `size_t`. -/
def decrement (rem : ℕ) : ℕ := if rem = 0 then 2 ^ 64 - 1 else rem - 1

/-- Moves to the next byte; the result is `false` when the last region ends. -/
def bufIterNext (it : BufIter) : Bool × BufIter :=
  let ptr := it.ptr + 1
  let rem := decrement it.rem
  if rem = 0 then
    let ind := it.iovInd + 1
    if ind = it.iov.length then (false, { it with iovInd := ind, ptr := ptr, rem := rem })
    else
      let v := it.iov.getD ind ⟨0, 0⟩
      (true, { it with iovInd := ind, ptr := v.base, rem := v.len })
  else (true, { it with ptr := ptr, rem := rem })

def getReadIter (buf : RoundBuffer) : BufIter := prepareBufIter (bufReadingIov buf)

def getWriteIter (buf : RoundBuffer) : BufIter := prepareBufIter (bufWritingIov buf)

/-- The byte at an address, inside the array or behind it. -/
def RoundBuffer.load (buf : RoundBuffer) (wild : ℕ → UInt8) (ptr : ℕ) : UInt8 :=
  if ptr < buf.capacity then buf.buffer ptr else wild ptr

/-! ### Encoding -/

/-- What the writing side of a loop has done: the array, the place of the next byte and the number
of bytes written. -/
structure WriteState where
  mem : ℕ → UInt8
  it : BufIter
  total : ℕ

/-- `*it.ptr = b`, then on to the next place. -/
def WriteState.push (w : WriteState) (b : UInt8) : WriteState :=
  { mem := Function.update w.mem w.it.ptr b
    it := (bufIterNext w.it).2
    total := w.total + 1 }

/-- The loop of `encode`. The first argument is `dst_rem`; the results are the writing side and
`src_total`. -/
def encodeLoop (src : ℕ → UInt8) : ℕ → BufIter → ℕ → WriteState → WriteState × ℕ
  | 0, _, srcTotal, w => (w, srcTotal)
  | 1, it, srcTotal, w =>
    let b := src it.ptr
    if b = escByte ∨ b = endByte then (w, srcTotal)
    else (w.push b, srcTotal + 1)
  | n + 2, it, srcTotal, w =>
    let b := src it.ptr
    let next := bufIterNext it
    if b = escByte ∨ b = endByte then
      let w := (w.push escByte).push b
      if next.1 then encodeLoop src n next.2 (srcTotal + 1) w else (w, srcTotal + 1)
    else
      let w := w.push b
      if next.1 then encodeLoop src (n + 1) next.2 (srcTotal + 1) w else (w, srcTotal + 1)

/-- Reads bytes of `src`, encodes them as one frame and appends it to `dst`. The result is `false`
when there is not enough room in `dst`. -/
def encode (src dst : RoundBuffer) (connectionId : UInt8) : Bool × RoundBuffer × RoundBuffer :=
  if bufDataLength src = 0 then (true, src, dst)
  else
    let srcIt := getReadIter src
    let dstAvail := bufFreeLength dst
    let first := src.buffer srcIt.ptr
    if dstAvail < 4 ∨ (first = escByte ∧ dstAvail < 5) then (false, src, dst)
    else
      let start : WriteState := ⟨dst.buffer, getWriteIter dst, 0⟩
      let r := encodeLoop src.buffer (dstAvail - 3) srcIt 0 ((start.push endByte).push connectionId)
      let w := r.1.push endByte
      (true, bufAdvanceReadPtr src r.2, bufAdvanceWritePtr { dst with buffer := w.mem } w.total)

/-- Appends the frame of a command to the output buffer of the tunnel, if it fits. -/
def encodeCommand (buf : RoundBuffer) (cmd arg : UInt8) : Bool × RoundBuffer :=
  if bufFreeLength buf < 5 then (false, buf)
  else
    let start : WriteState := ⟨buf.buffer, getWriteIter buf, 0⟩
    let w := ((((start.push endByte).push 0).push cmd).push arg).push endByte
    (true, bufAdvanceWritePtr { buf with buffer := w.mem } 5)

/-! ### Decoding -/

/-- The loop of `decode`. The first argument is `dst_rem`; the results are `end_reached`,
`src_total` and the writing side. -/
def decodeLoop (load : ℕ → UInt8) : ℕ → BufIter → ℕ → WriteState → Bool × ℕ × WriteState
  | 0, _, srcTotal, w => (false, srcTotal, w)
  | n + 1, it, srcTotal, w =>
    let b := load it.ptr
    if b = endByte then (true, srcTotal + 1, w)
    else
      let esc := b = escByte
      let it := if esc then (bufIterNext it).2 else it
      let w := w.push (if esc then load it.ptr else b)
      let srcTotal := if esc then srcTotal + 2 else srcTotal + 1
      let next := bufIterNext it
      if next.1 then decodeLoop load n next.2 srcTotal w else (false, srcTotal, w)

/-- Delivers bytes of the frame at the front of `src` to `dst`, until `END`, the end of `src` or
the end of the room in `dst`. The result is `true` when `END` was reached. -/
def decode (wild : ℕ → UInt8) (src dst : RoundBuffer) : Bool × RoundBuffer × RoundBuffer :=
  let r := decodeLoop (src.load wild) (bufFreeLength dst) (getReadIter src) 0
    ⟨dst.buffer, getWriteIter dst, 0⟩
  (r.1, bufAdvanceReadPtr src r.2.1,
    bufAdvanceWritePtr { dst with buffer := r.2.2.mem } r.2.2.total)

end OsTasks.PortForwarding
