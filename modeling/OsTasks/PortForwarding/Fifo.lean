import OsTasks.PortForwarding.RoundBuffer

/-!
# The round buffer as a bounded queue

A buffer is followed together with the bytes that were stored through its writing regions and the
bytes that were obtained through its reading regions. It behaves as a queue when the bytes
obtained, followed by the bytes unread, are the bytes stored (`Transfer.Fifo`).

`buf_writing_iov` offers every cell in front of `offset` also when the unread bytes wrap around
the end of the array, and then some of these cells are unread. The states in which it offers
exactly the free cells are those of `RoundBuffer.CanStore`: the unread bytes do not wrap, or the
buffer is full and nothing is offered.

## Main definitions

* `BufOp`, `Transfer`, `Transfer.step`, `Transfer.run`: the uses of a buffer and their runs.
* `RoundBuffer.RegionsSound`: the writing regions are free and make up the free length.
* `StoresReady`: every step of a run that stores a byte finds a buffer that can store.

## Main results

* `regionsSound_iff`: the writing regions are sound exactly in the states that can store.
* `fifo_step`: a step keeps the order, unless it stores a byte in a state that cannot.
* `fifo_run`: the runs in which the buffer is a queue.
-/

namespace OsTasks.PortForwarding

/-! ### The writing regions -/

namespace RoundBuffer

/-- The unread bytes do not wrap, or there is nothing to store to. -/
def CanStore (buf : RoundBuffer) : Prop := buf.Unwrapped ∨ buf.length = buf.capacity

instance (buf : RoundBuffer) : Decidable buf.CanStore := inferInstanceAs (Decidable (_ ∨ _))

/-- The writing regions hold no unread byte, and their lengths add up to the free length. -/
def RegionsSound (buf : RoundBuffer) : Prop :=
  List.Disjoint (iovAddrs (bufWritingIov buf)) buf.dataAddrs ∧
    iovLength (bufWritingIov buf) = bufFreeLength buf

end RoundBuffer

theorem regionsSound_of_canStore {buf : RoundBuffer} (h : buf.CanStore) : buf.RegionsSound := by
  rcases h with h | hfull
  · refine ⟨?_, ?_⟩
    · rw [iovAddrs_bufWritingIov h]
      exact fun _ hw hd => disjoint_dataAddrs_free buf hd hw
    · rw [← length_iovAddrs, iovAddrs_bufWritingIov h, length_ringAddrs]
  · simp [RoundBuffer.RegionsSound, hfull, iovLength, bufFreeLength]

/-- **The writing regions.** They are disjoint from the unread bytes and as long as the free
cells exactly when the unread bytes do not wrap or the buffer is full. -/
theorem regionsSound_iff (buf : RoundBuffer) : buf.RegionsSound ↔ buf.CanStore := by
  refine ⟨fun h => ?_, regionsSound_of_canStore⟩
  by_contra hno
  simp only [RoundBuffer.CanStore, not_or] at hno
  have hiov := bufWritingIov_of_wrapped hno.1 hno.2
  have hlength := h.2
  simp only [hiov, iovLength, bufFreeLength, List.map_cons, List.map_nil, List.sum_cons,
    List.sum_nil] at hlength
  have hwrap := hno.1
  have hlen := buf.length_le
  unfold RoundBuffer.Unwrapped at hwrap
  omega

/-! ### Runs -/

/-- One use of a buffer: `buf_read`, `buf_write`, `buf_advance_read_ptr` after the bytes have been
looked at, or writing bytes one by one to the offered regions. -/
inductive BufOp
  | read (r : ReadResult)
  | write (r : WriteResult)
  | advanceRead (n : ℕ)
  | put (bs : List UInt8)

/-- The bytes a use stores. The callers that write byte by byte stop at `buf_free_length`. -/
def BufOp.stored (buf : RoundBuffer) : BufOp → List UInt8
  | .read r => (bufRead r buf).2.1
  | .put bs => bs.take (bufFreeLength buf)
  | .write _ | .advanceRead _ => []

/-- A buffer with the bytes that went in and the bytes that came out. -/
structure Transfer where
  buf : RoundBuffer
  stored : List UInt8
  obtained : List UInt8

namespace Transfer

/-- A fresh buffer. -/
def start (mem : ℕ → UInt8) (capacity : ℕ+) : Transfer := ⟨bufCreate mem capacity, [], []⟩

/-- The buffer after one use, the bytes stored and obtained in it recorded. -/
def step (t : Transfer) (op : BufOp) : Transfer where
  stored := t.stored ++ op.stored t.buf
  obtained := t.obtained ++
    match op with
    | .write r => (bufWrite r t.buf).2.1
    | .advanceRead n => ((iovAddrs (bufReadingIov t.buf)).map t.buf.buffer).take n
    | .read _ | .put _ => []
  buf :=
    match op with
    | .read r => (bufRead r t.buf).2.2
    | .write r => (bufWrite r t.buf).2.2
    | .advanceRead n => bufAdvanceReadPtr t.buf n
    | .put bs => t.buf.put (bs.take (bufFreeLength t.buf))

/-- The buffer after a sequence of uses. -/
def run (t : Transfer) (ops : List BufOp) : Transfer := ops.foldl step t

/-- The bytes obtained, then the bytes unread, are the bytes stored. -/
def Fifo (t : Transfer) : Prop := t.obtained ++ t.buf.contents = t.stored

instance (t : Transfer) : Decidable t.Fifo := inferInstanceAs (Decidable (_ = _))

end Transfer

theorem fifo_start (mem : ℕ → UInt8) (capacity : ℕ+) : (Transfer.start mem capacity).Fifo := rfl

/-- Every use that stores a byte finds a buffer that can store. -/
def StoresReady : Transfer → List BufOp → Prop
  | _, [] => True
  | t, op :: ops => (op.stored t.buf ≠ [] → t.buf.CanStore) ∧ StoresReady (t.step op) ops

/-- `buf_read` puts the bytes that `readv` delivered, and none when `readv` is not reached. -/
theorem bufRead_eq_put (r : ReadResult) (buf : RoundBuffer) :
    (bufRead r buf).2.2 = buf.put (bufRead r buf).2.1 := by
  unfold bufRead
  dsimp only
  split_ifs
  · exact (put_nil buf).symm
  · cases r with
    | bytes bs => rfl
    | error e => exact (put_nil buf).symm

theorem length_bufRead_le (r : ReadResult) (buf : RoundBuffer) :
    (bufRead r buf).2.1.length ≤ iovLength (bufWritingIov buf) := by
  unfold bufRead
  dsimp only
  split_ifs
  · exact Nat.zero_le _
  · cases r with
    | bytes bs => simp
    | error e => exact Nat.zero_le _

/-- `buf_write` takes the oldest unread bytes. -/
theorem bufWrite_spec (r : WriteResult) (buf : RoundBuffer) :
    (bufWrite r buf).2.1 ++ (bufWrite r buf).2.2.contents = buf.contents := by
  unfold bufWrite
  dsimp only
  split_ifs
  · rfl
  · cases r with
    | taken n =>
      dsimp only
      rw [iovAddrs_bufReadingIov, contents_bufAdvanceReadPtr, ← RoundBuffer.contents]
      rw [List.length_take, List.take_eq_take_min, List.take_append_drop]
    | error e => rfl

/-- A store into a buffer that can store appends to the unread bytes. -/
theorem contents_put_of_canStore {buf : RoundBuffer} {bs : List UInt8}
    (h : bs ≠ [] → buf.CanStore) (hbs : bs.length ≤ iovLength (bufWritingIov buf)) :
    (buf.put bs).contents = buf.contents ++ bs := by
  by_cases hnil : bs = []
  · rw [hnil, put_nil, List.append_nil]
  · have hcan := h hnil
    rw [(regionsSound_of_canStore hcan).2] at hbs
    rcases hcan with hun | hfull
    · exact contents_put hun hbs
    · have : bs.length = 0 := by simpa [bufFreeLength, hfull] using hbs
      exact absurd (List.length_eq_zero_iff.mp this) hnil

/-- **One step.** A use keeps the order of the bytes, unless it stores a byte in a state that
cannot store. -/
theorem fifo_step {t : Transfer} (ht : t.Fifo) {op : BufOp}
    (h : op.stored t.buf ≠ [] → t.buf.CanStore) : (t.step op).Fifo := by
  unfold Transfer.Fifo at ht ⊢
  cases op with
  | read r =>
    have hput : (bufRead r t.buf).2.2.contents = t.buf.contents ++ (bufRead r t.buf).2.1 := by
      rw [bufRead_eq_put]
      exact contents_put_of_canStore h (length_bufRead_le r t.buf)
    simp only [Transfer.step, BufOp.stored, List.append_nil]
    rw [hput, ← List.append_assoc, ht]
  | put bs =>
    let fit := bs.take (bufFreeLength t.buf)
    have hput : (t.buf.put fit).contents = t.buf.contents ++ fit := by
      by_cases hnil : fit = []
      · rw [hnil, put_nil, List.append_nil]
      · refine contents_put_of_canStore h ?_
        rw [(regionsSound_of_canStore (h hnil)).2]
        simp [fit]
    simp only [Transfer.step, BufOp.stored, List.append_nil]
    rw [hput, ← List.append_assoc, ht]
  | write r =>
    simp only [Transfer.step, BufOp.stored, List.append_nil]
    rw [List.append_assoc, bufWrite_spec, ht]
  | advanceRead n =>
    simp only [Transfer.step, BufOp.stored, List.append_nil]
    rw [iovAddrs_bufReadingIov, ← RoundBuffer.contents, contents_bufAdvanceReadPtr,
      List.append_assoc, List.take_append_drop, ht]

theorem fifo_run_of_storesReady {t : Transfer} (ht : t.Fifo) {ops : List BufOp}
    (h : StoresReady t ops) : (t.run ops).Fifo := by
  induction ops generalizing t with
  | nil => exact ht
  | cons op ops ih => exact ih (fifo_step ht h.1) h.2

/-- Where the unread bytes pass the end of the array, they continue in its first cell. -/
theorem getElem?_contents_wrap {buf : RoundBuffer}
    (hi : buf.capacity - buf.offset < buf.length) :
    buf.contents[buf.capacity - buf.offset]? = some (buf.buffer 0) := by
  have hoff := buf.offset_lt
  rw [RoundBuffer.contents, List.getElem?_map, List.getElem?_eq_getElem (by simpa using hi)]
  simp only [RoundBuffer.dataAddrs, getElem_ringAddrs, Option.map_some]
  rw [Nat.add_sub_cancel' (Nat.le_of_lt hoff), Nat.mod_self]

/-- A byte stored in a state that cannot store replaces an unread byte. -/
theorem not_fifo_read_of_not_canStore {t : Transfer} (ht : t.Fifo) (h : ¬ t.buf.CanStore) :
    ∃ b : UInt8, ¬ (t.step (.read (.bytes [b]))).Fifo := by
  simp only [RoundBuffer.CanStore, not_or] at h
  obtain ⟨hwrap, hfull⟩ := h
  have hiov := bufWritingIov_of_wrapped hwrap hfull
  have hoff := t.buf.offset_lt
  have hlen := t.buf.length_le
  have hover : t.buf.capacity < t.buf.offset + t.buf.length := Nat.lt_of_not_le hwrap
  obtain ⟨b, hb⟩ : ∃ b, b ≠ t.buf.buffer 0 :=
    ⟨t.buf.buffer 0 + 1, by simp⟩
  refine ⟨b, fun hfifo => hb ?_⟩
  have hread : bufRead (.bytes [b]) t.buf = (1, [b], t.buf.put [b]) := by
    have h₀ : 1 ≤ t.buf.offset := by omega
    simp [bufRead, hiov, iovLength, List.take_of_length_le, h₀, RoundBuffer.put]
  have happend : (t.buf.put [b]).contents = t.buf.contents ++ [b] := by
    simp only [Transfer.Fifo, Transfer.step, BufOp.stored, hread, List.append_nil] at hfifo
    rw [Transfer.Fifo] at ht
    rw [← ht, List.append_assoc] at hfifo
    exact List.append_cancel_left hfifo
  have hstore : (t.buf.put [b]).buffer 0 = b := by
    obtain ⟨n, hn⟩ := Nat.exists_eq_succ_of_ne_zero (show t.buf.offset ≠ 0 by omega)
    simp [RoundBuffer.put, bufAdvanceWritePtr, RoundBuffer.store, hiov, hn, List.range'_succ]
  have hafter : (t.buf.put [b]).contents[t.buf.capacity - t.buf.offset]? = some b := by
    have hi : (t.buf.put [b]).capacity - (t.buf.put [b]).offset < (t.buf.put [b]).length := by
      rw [capacity_put, offset_put, length_put, List.length_singleton]
      omega
    exact (getElem?_contents_wrap hi).trans (congrArg some hstore)
  rw [happend, List.getElem?_append_left (by rw [RoundBuffer.length_contents]; omega),
    getElem?_contents_wrap (by omega)] at hafter
  exact (Option.some.inj hafter).symm

/-- **The round buffer as a queue.** For every capacity and every sequence of uses: the buffer is
a queue if every use that stored a byte found it able to store; its writing regions are sound
exactly if it is able to store; and as long as it has been a queue, it stays one for every byte
`readv` may deliver next exactly if it is able to store. -/
theorem fifo_run (mem : ℕ → UInt8) (capacity : ℕ+) (ops : List BufOp) :
    let t := (Transfer.start mem capacity).run ops
    (StoresReady (Transfer.start mem capacity) ops → t.Fifo) ∧
      (t.buf.RegionsSound ↔ t.buf.CanStore) ∧
      (t.Fifo → ((∀ r, (t.step (.read r)).Fifo) ↔ t.buf.CanStore)) := by
  intro t
  refine ⟨fun h => fifo_run_of_storesReady (fifo_start mem capacity) h, regionsSound_iff t.buf,
    fun ht => ⟨?_, ?_⟩⟩
  · intro hall
    by_contra hno
    obtain ⟨b, hb⟩ := not_fifo_read_of_not_canStore ht hno
    exact hb (hall _)
  · exact fun h r => fifo_step ht fun _ => h

/-- Six bytes pass through a buffer of four, and no store finds unread bytes that wrap. -/
theorem fifo_run_sixBytes :
    let start := Transfer.start (fun _ => 0) 4
    let ops : List BufOp :=
      [.read (.bytes [1, 2, 3]), .write (.taken 2), .read (.bytes [4]), .advanceRead 2,
        .put [5, 6], .write (.taken 1)]
    StoresReady start ops ∧ (start.run ops).Fifo ∧ (start.run ops).obtained = [1, 2, 3, 4, 5] := by
  intro start ops
  have hready : StoresReady start ops :=
    ⟨fun _ => by decide, fun h => absurd rfl h, fun _ => by decide, fun h => absurd rfl h,
      fun _ => by decide, fun h => absurd rfl h, trivial⟩
  exact ⟨hready, (fifo_run _ 4 ops).1 hready, by decide⟩

/-- A buffer of four bytes is filled, two bytes are taken, and one byte arrives, which wraps. The
next byte overwrites it, and the two cells offered for it are one more than there are free. -/
theorem not_fifo_wrapped :
    let t := (Transfer.start (fun _ => 0) 4).run
      [.read (.bytes [1, 2, 3, 4]), .write (.taken 2), .read (.bytes [5])]
    ¬ (t.step (.read (.bytes [6]))).Fifo ∧ ¬ t.buf.RegionsSound := by
  refine ⟨by decide, ?_⟩
  rw [regionsSound_iff]
  decide

end OsTasks.PortForwarding
