import OsTasks.PortForwarding.Fifo

/-!
# The round buffer of the proxy

`round_buffer.c` of the proxy is an older version of the one of the port forwarder. It computes the
same regions, but `read_rb` adds what `readv` returned to `length` whatever the free length is, so
nothing keeps `length ≤ capacity`. The structure has no bounds as fields.

As long as the bounds hold, the buffer is one of the port forwarder. The system calls are modelled
as there; an address is the distance from `buffer`, and cells behind the array are memory, too.

## Main definitions

* `RoundBuffer`, `rbInit`, `rbFull`, `rbEmpty`, `makeWriteIov`, `makeReadIov`, `writeRb`, `readRb`.
* `RoundBuffer.Bounded`, `RoundBuffer.bounded`: the bounds, and the buffer with the bounds.

## Main results

* `writeRb_bounded`, `readRb_bounded`: what the two calls do to a buffer with bounds.
-/

namespace OsTasks.Proxy

open PortForwarding (IoVec iovLength iovAddrs ReadResult WriteResult bufReadingIov bufWritingIov
  bufAdvanceReadPtr bufFreeLength bufRead bufWrite)

/-! ### The structure and its regions -/

/-- `struct round_buffer`. -/
structure RoundBuffer where
  offset : ℕ
  length : ℕ
  capacity : ℕ
  buffer : ℕ → UInt8

/-- `rb_init` over the array `mem` that `malloc` returned. -/
def rbInit (mem : ℕ → UInt8) (capacity : ℕ) : RoundBuffer := ⟨0, 0, capacity, mem⟩

def rbFull (buf : RoundBuffer) : Bool := buf.length == buf.capacity

def rbEmpty (buf : RoundBuffer) : Bool := buf.length == 0

/-- The regions offered to `readv`. -/
def makeWriteIov (buf : RoundBuffer) : List IoVec :=
  if buf.length = buf.capacity then []
  else
    let partStart := buf.offset + buf.length
    (if partStart < buf.capacity then [⟨partStart, buf.capacity - partStart⟩] else []) ++
      if 0 < buf.offset then [⟨0, buf.offset⟩] else []

/-- The regions offered to `writev`. -/
def makeReadIov (buf : RoundBuffer) : List IoVec :=
  if buf.length = 0 then []
  else
    let last := buf.offset + buf.length
    if last ≤ buf.capacity then [⟨buf.offset, buf.length⟩]
    else [⟨buf.offset, buf.capacity - buf.offset⟩, ⟨0, last - buf.capacity⟩]

/-- `write_rb`, when the socket answers by `r`: the result (`-2` when nothing is offered), the bytes
that were taken and the buffer without them. -/
def writeRb (r : WriteResult) (buf : RoundBuffer) : ℤ × List UInt8 × RoundBuffer :=
  let iov := makeReadIov buf
  if iov.length = 0 then (-2, [], buf)
  else
    match r with
    | .error _ => (-1, [], buf)
    | .taken n =>
      let sent := ((iovAddrs iov).map buf.buffer).take n
      (sent.length, sent,
        if sent.length = buf.length then { buf with length := 0, offset := 0 }
        else
          { buf with
            length := buf.length - sent.length
            offset := (buf.offset + sent.length) % buf.capacity })

/-- `read_rb`, when the socket answers by `r`: the result (`-2` when nothing is offered), the bytes
that were stored and the buffer with them. -/
def readRb (r : ReadResult) (buf : RoundBuffer) : ℤ × List UInt8 × RoundBuffer :=
  let iov := makeWriteIov buf
  if iov.length = 0 then (-2, [], buf)
  else
    match r with
    | .error _ => (-1, [], buf)
    | .bytes bs =>
      let got := bs.take (iovLength iov)
      (got.length, got,
        { buf with
          buffer := storeAt buf.buffer (iovAddrs iov) got
          length := buf.length + got.length })

/-! ### Buffers with bounds -/

namespace RoundBuffer

/-- The bounds on the fields. -/
structure Bounded (buf : RoundBuffer) : Prop where
  offset_lt : buf.offset < buf.capacity
  length_le : buf.length ≤ buf.capacity

/-- A buffer with bounds, as a buffer of the port forwarder. -/
def bounded (buf : RoundBuffer) (h : buf.Bounded) : PortForwarding.RoundBuffer :=
  ⟨buf.offset, buf.length, buf.capacity, buf.buffer, h.offset_lt, h.length_le⟩

/-- The unread bytes, oldest first. -/
def contents (buf : RoundBuffer) : List UInt8 :=
  (ringAddrs buf.capacity buf.offset buf.length).map buf.buffer

@[simp] theorem length_contents (buf : RoundBuffer) : buf.contents.length = buf.length := by
  simp [contents]

/-- The unread bytes do not run past the end of the array. -/
def Unwrapped (buf : RoundBuffer) : Prop := buf.offset + buf.length ≤ buf.capacity

instance (buf : RoundBuffer) : Decidable buf.Unwrapped := inferInstanceAs (Decidable (_ ≤ _))

end RoundBuffer

@[simp] theorem rbFull_iff (buf : RoundBuffer) : rbFull buf = true ↔ buf.length = buf.capacity :=
  beq_iff_eq

@[simp] theorem rbEmpty_iff (buf : RoundBuffer) : rbEmpty buf = true ↔ buf.length = 0 := beq_iff_eq

theorem bounded_rbInit (mem : ℕ → UInt8) {capacity : ℕ} (h : 0 < capacity) :
    (rbInit mem capacity).Bounded :=
  ⟨h, Nat.zero_le _⟩

variable {buf : RoundBuffer}

/-- **The regions are those of the port forwarder.** -/
theorem makeWriteIov_eq (h : buf.Bounded) : makeWriteIov buf = bufWritingIov (buf.bounded h) := rfl

theorem makeReadIov_eq (h : buf.Bounded) : makeReadIov buf = bufReadingIov (buf.bounded h) := rfl

/-- The buffer of the port forwarder has the same contents. -/
theorem contents_bounded (h : buf.Bounded) : (buf.bounded h).contents = buf.contents := rfl

/-- Where `write_rb` moves the offset is where `buf_advance_read_ptr` moves it. -/
theorem advance_bounded (h : buf.Bounded) {n : ℕ} (hn : n ≤ buf.length) :
    ∃ h', RoundBuffer.bounded (if n = buf.length then { buf with length := 0, offset := 0 }
        else { buf with length := buf.length - n, offset := (buf.offset + n) % buf.capacity }) h' =
      bufAdvanceReadPtr (buf.bounded h) n := by
  have hpos := Nat.zero_lt_of_lt h.offset_lt
  have hlt : ¬ buf.length < n := Nat.not_lt.mpr hn
  split_ifs with hall
  · refine ⟨⟨hpos, Nat.zero_le _⟩, ?_⟩
    simp [bufAdvanceReadPtr, PortForwarding.bufDataLength, RoundBuffer.bounded, hall]
  · refine ⟨⟨Nat.mod_lt _ hpos, (Nat.sub_le _ _).trans h.length_le⟩, ?_⟩
    simp [bufAdvanceReadPtr, PortForwarding.bufDataLength, RoundBuffer.bounded, hlt, hall]

/-- **`write_rb` is `buf_write` of the port forwarder.** -/
theorem writeRb_eq (r : WriteResult) (h : buf.Bounded) :
    (writeRb r buf).2.1 = (bufWrite r (buf.bounded h)).2.1 ∧
      ∃ h', (writeRb r buf).2.2.bounded h' = (bufWrite r (buf.bounded h)).2.2 := by
  unfold writeRb bufWrite
  rw [← makeReadIov_eq h]
  dsimp only
  split_ifs with hnone
  · exact ⟨rfl, h, rfl⟩
  cases r with
  | error e => exact ⟨rfl, h, rfl⟩
  | taken n =>
    refine ⟨rfl, ?_⟩
    have hlen : (((iovAddrs (makeReadIov buf)).map buf.buffer).take n).length ≤ buf.length := by
      rw [makeReadIov_eq h, PortForwarding.iovAddrs_bufReadingIov, List.length_take,
        List.length_map,
        PortForwarding.RoundBuffer.length_dataAddrs]
      exact Nat.min_le_right _ _
    exact advance_bounded h hlen

/-- `write_rb` takes the oldest unread bytes, and keeps the bounds. -/
theorem writeRb_spec (r : WriteResult) (h : buf.Bounded) :
    (writeRb r buf).2.2.Bounded ∧
      (writeRb r buf).2.1 ++ (writeRb r buf).2.2.contents = buf.contents := by
  obtain ⟨hsent, h', heq⟩ := writeRb_eq r h
  refine ⟨h', ?_⟩
  rw [hsent, ← contents_bounded h', heq]
  exact PortForwarding.bufWrite_spec r _

/-- **`read_rb` is `buf_read` of the port forwarder**, if no more is stored than there is room. -/
theorem readRb_eq (r : ReadResult) (h : buf.Bounded)
    (hroom : buf.length + (readRb r buf).2.1.length ≤ buf.capacity) :
    (readRb r buf).2.1 = (bufRead r (buf.bounded h)).2.1 ∧
      ∃ h', (readRb r buf).2.2.bounded h' = (bufRead r (buf.bounded h)).2.2 := by
  unfold readRb at hroom ⊢
  unfold bufRead
  rw [← makeWriteIov_eq h]
  dsimp only at hroom ⊢
  split_ifs at hroom ⊢ with hnone
  · exact ⟨rfl, h, rfl⟩
  cases r with
  | error e => exact ⟨rfl, h, rfl⟩
  | bytes bs =>
    refine ⟨rfl, ⟨h.offset_lt, hroom⟩, ?_⟩
    have hfree : ¬ bufFreeLength (buf.bounded h) <
      (bs.take (iovLength (makeWriteIov buf))).length := by
      rw [bufFreeLength]
      change ¬ buf.capacity - buf.length < _
      dsimp only at hroom
      omega
    refine PortForwarding.RoundBuffer.ext rfl ?_ rfl rfl
    change _ = buf.length + if bufFreeLength (buf.bounded h) < _ then _ else _
    rw [if_neg hfree]
    rfl

/-- `read_rb` appends to unread bytes that do not wrap, and keeps the bounds. -/
theorem readRb_spec (r : ReadResult) (h : buf.Bounded)
    (hstore : (readRb r buf).2.1 ≠ [] → buf.Unwrapped) :
    (readRb r buf).2.2.Bounded ∧
      (readRb r buf).2.2.contents = buf.contents ++ (readRb r buf).2.1 := by
  have hlength : (readRb r buf).2.1.length ≤ iovLength (makeWriteIov buf) := by
    unfold readRb
    dsimp only
    split_ifs
    · exact Nat.zero_le _
    · cases r with
      | bytes bs => simp
      | error e => exact Nat.zero_le _
  have hroom : buf.length + (readRb r buf).2.1.length ≤ buf.capacity := by
    by_cases hnil : (readRb r buf).2.1 = []
    · rw [hnil]
      exact h.length_le
    · have hcan : (buf.bounded h).CanStore := .inl (hstore hnil)
      have hfree := (PortForwarding.regionsSound_of_canStore hcan).2
      rw [← makeWriteIov_eq h] at hfree
      have hle := h.length_le
      change _ = buf.capacity - buf.length at hfree
      omega
  obtain ⟨hgot, h', heq⟩ := readRb_eq r h hroom
  refine ⟨h', ?_⟩
  rw [← contents_bounded h', heq, ← contents_bounded h, hgot, PortForwarding.bufRead_eq_put]
  refine PortForwarding.contents_put_of_canStore (fun hne => .inl (hstore (hgot ▸ hne))) ?_
  exact PortForwarding.length_bufRead_le r _

end OsTasks.Proxy
