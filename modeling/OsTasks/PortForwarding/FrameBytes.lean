import OsTasks.Library.Stuffing
import OsTasks.PortForwarding.Frames

/-!
# The bytes of the frames

What the iterators of `pump.c` visit is a list of addresses, so that `encode`, `encode_command` and
`decode` can be stated by the bytes that they append, take and deliver.

## Main definitions

* `BufIter.At`: the addresses that an iterator is at and comes to.
* `WriteState.pushAll`: bytes written one after the other.
* `dataFrame`, `commandFrame`: the bytes of a frame.

## Main results

* `encode_spec`, `encodeCommand_spec`: one frame is appended, or nothing happens.
* `decode_spec`: a frame that is there as a whole is delivered as a whole, if there is room.
-/

namespace OsTasks.PortForwarding

/-! ### Iterators -/

/-- An iterator that is at the first of the addresses `as` and comes to the others in turn. -/
structure BufIter.At (it : BufIter) (as : List ℕ) : Prop where
  rem : 0 < it.rem
  ind : it.iovInd < it.iov.length
  regions : ∀ v ∈ it.iov.drop (it.iovInd + 1), 0 < v.len
  addrs : as = List.range' it.ptr it.rem ++ iovAddrs (it.iov.drop (it.iovInd + 1))

theorem at_prepareBufIter {iov : List IoVec} (hne : iov ≠ []) (hpos : ∀ v ∈ iov, 0 < v.len) :
    (prepareBufIter iov).At (iovAddrs iov) := by
  cases iov with
  | nil => exact absurd rfl hne
  | cons v iov =>
    obtain ⟨hv, hrest⟩ := List.forall_mem_cons.mp hpos
    exact ⟨hv, Nat.zero_lt_succ _, hrest, rfl⟩

variable {it : BufIter} {a : ℕ} {as : List ℕ}

theorem BufIter.At.ne_nil (h : it.At as) : as ≠ [] := by
  have hrem := h.rem
  rw [h.addrs, ← Nat.sub_add_cancel hrem, List.range'_succ]
  simp

theorem BufIter.At.ptr (h : it.At (a :: as)) : it.ptr = a := by
  have haddrs := h.addrs
  rw [← Nat.sub_add_cancel h.rem, List.range'_succ, List.cons_append] at haddrs
  exact (List.cons.inj haddrs).1.symm

/-- Behind the last address the iterator has passed its last region. -/
theorem BufIter.At.next_last (h : it.At [a]) :
    (bufIterNext it).2.iov.length ≤ (bufIterNext it).2.iovInd := by
  obtain ⟨hrem, hind, hregions, haddrs⟩ := h
  rw [← Nat.sub_add_cancel hrem, List.range'_succ, List.cons_append] at haddrs
  obtain ⟨hlast, hrest⟩ := List.append_eq_nil_iff.mp (List.cons.inj haddrs).2.symm
  have hone : it.rem - 1 = 0 := by simpa using congrArg List.length hlast
  have hend : it.iovInd + 1 = it.iov.length := by
    by_contra hne
    rw [List.drop_eq_getElem_cons (by omega : it.iovInd + 1 < it.iov.length)] at hrest hregions
    have hpos := hregions _ List.mem_cons_self
    have := congrArg List.length hrest
    simp only [iovAddrs_cons, List.length_append, List.length_range', List.length_nil] at this
    omega
  unfold bufIterNext decrement
  rw [if_neg hrem.ne']
  dsimp only
  rw [if_pos hone, if_pos hend]
  exact hend.ge

/-- The next address, in the region or at the start of the next one. -/
theorem BufIter.At.next (h : it.At (a :: as)) :
    (bufIterNext it).1 = !as.isEmpty ∧ (as ≠ [] → (bufIterNext it).2.At as) := by
  obtain ⟨hrem, hind, hregions, haddrs⟩ := h
  unfold bufIterNext decrement
  rw [if_neg hrem.ne']
  dsimp only
  rw [← Nat.sub_add_cancel hrem, List.range'_succ, List.cons_append] at haddrs
  have hrest := (List.cons.inj haddrs).2
  by_cases hlast : it.rem - 1 = 0
  · rw [hlast, List.range'_zero, List.nil_append] at hrest
    rw [if_pos hlast]
    by_cases hend : it.iovInd + 1 = it.iov.length
    · rw [List.drop_eq_nil_of_le hend.ge] at hrest
      rw [if_pos hend, hrest]
      exact ⟨rfl, fun hne => absurd rfl hne⟩
    · have hlt : it.iovInd + 1 < it.iov.length := by omega
      rw [if_neg hend]
      rw [List.drop_eq_getElem_cons hlt] at hrest hregions
      obtain ⟨hv, htail⟩ := List.forall_mem_cons.mp hregions
      have hget : it.iov.getD (it.iovInd + 1) ⟨0, 0⟩ = it.iov[it.iovInd + 1] := by
        rw [List.getD_eq_getElem?_getD, List.getElem?_eq_getElem hlt, Option.getD_some]
      rw [hget]
      have hat : (⟨it.iov, it.iovInd + 1, it.iov[it.iovInd + 1].base,
          it.iov[it.iovInd + 1].len⟩ : BufIter).At as := ⟨hv, hlt, htail, hrest⟩
      exact ⟨by simp [hat.ne_nil], fun _ => hat⟩
  · rw [if_neg hlast]
    have hat : (⟨it.iov, it.iovInd, it.ptr + 1, it.rem - 1⟩ : BufIter).At as :=
      ⟨Nat.pos_of_ne_zero hlast, hind, hregions, hrest⟩
    exact ⟨by simp [hat.ne_nil], fun _ => hat⟩

/-! ### Writing -/

/-- Bytes written one after the other. -/
def WriteState.pushAll (w : WriteState) (bs : List UInt8) : WriteState := bs.foldl WriteState.push w

@[simp] theorem WriteState.pushAll_nil (w : WriteState) : w.pushAll [] = w := rfl

@[simp] theorem WriteState.pushAll_cons (w : WriteState) (b : UInt8) (bs : List UInt8) :
    w.pushAll (b :: bs) = (w.push b).pushAll bs := rfl

theorem WriteState.pushAll_append (w : WriteState) (bs bs' : List UInt8) :
    w.pushAll (bs ++ bs') = (w.pushAll bs).pushAll bs' := List.foldl_append

@[simp] theorem WriteState.total_push (w : WriteState) (b : UInt8) :
    (w.push b).total = w.total + 1 := rfl

theorem WriteState.total_pushAll (w : WriteState) (bs : List UInt8) :
    (w.pushAll bs).total = w.total + bs.length := by
  induction bs generalizing w with
  | nil => rfl
  | cons b bs ih =>
    rw [pushAll_cons, ih, total_push, List.length_cons]
    omega

/-- Bytes are stored at the addresses that the iterator comes to. -/
theorem WriteState.mem_pushAll {w : WriteState} (h : w.it.At as) {bs : List UInt8}
    (hlen : bs.length ≤ as.length) : (w.pushAll bs).mem = storeAt w.mem as bs := by
  induction bs generalizing w as with
  | nil => exact (storeAt_nil _ _).symm
  | cons b bs ih =>
    cases as with
    | nil => exact absurd rfl h.ne_nil
    | cons a as =>
      have hmem : (w.push b).mem = Function.update w.mem a b := by
        rw [WriteState.push, h.ptr]
      rw [pushAll_cons, storeAt_cons, ← hmem]
      cases bs with
      | nil => exact (storeAt_nil _ _).symm
      | cons c bs =>
        have hne : as ≠ [] := by
          rintro rfl
          simp at hlen
        exact ih (w := w.push b) (h.next.2 hne) (by simpa using hlen)

theorem len_pos_of_mem_bufWritingIov {buf : RoundBuffer} {v : IoVec} (hv : v ∈ bufWritingIov buf) :
    0 < v.len := by
  unfold bufWritingIov at hv
  dsimp only at hv
  split_ifs at hv <;> simp only [List.mem_append, List.mem_singleton, List.not_mem_nil, or_false,
    false_or] at hv
  · rcases hv with rfl | rfl
    · exact Nat.sub_pos_of_lt ‹_›
    · assumption
  · subst hv
    exact Nat.sub_pos_of_lt ‹_›
  · subst hv
    assumption

theorem len_pos_of_mem_bufReadingIov {buf : RoundBuffer} {v : IoVec} (hv : v ∈ bufReadingIov buf) :
    0 < v.len := by
  have hoff := buf.offset_lt
  unfold bufReadingIov at hv
  dsimp only at hv
  split_ifs at hv with hempty hend
  · exact absurd hv List.not_mem_nil
  · obtain rfl := List.mem_singleton.mp hv
    exact Nat.pos_of_ne_zero hempty
  · simp only [List.mem_cons, List.not_mem_nil, or_false] at hv
    rcases hv with rfl | rfl <;> dsimp only <;> omega

theorem at_getWriteIter {buf : RoundBuffer} (h : buf.length ≠ buf.capacity) :
    (getWriteIter buf).At (iovAddrs (bufWritingIov buf)) :=
  at_prepareBufIter (fun hnil => h ((length_bufWritingIov_eq_zero buf).mp (by rw [hnil]; rfl)))
    fun _ => len_pos_of_mem_bufWritingIov

theorem at_getReadIter {buf : RoundBuffer} (h : buf.length ≠ 0) :
    (getReadIter buf).At buf.dataAddrs := by
  rw [← iovAddrs_bufReadingIov]
  exact at_prepareBufIter (fun hnil => h ((length_bufReadingIov_eq_zero buf).mp
    (by rw [hnil]; rfl)))
    fun _ => len_pos_of_mem_bufReadingIov

/-- The writing side of a loop over a buffer, before the first byte. -/
def RoundBuffer.writer (buf : RoundBuffer) : WriteState := ⟨buf.buffer, getWriteIter buf, 0⟩

/-- `decode` advances both buffers by what its loop has taken and written. -/
theorem decode_of_loop {wild : ℕ → UInt8} {src dst : RoundBuffer} {ended : Bool} {n : ℕ}
    {w : WriteState}
    (h : decodeLoop (src.load wild) (bufFreeLength dst) (getReadIter src) 0 dst.writer =
      (ended, n, w)) :
    decode wild src dst = (ended, bufAdvanceReadPtr src n,
      bufAdvanceWritePtr { dst with buffer := w.mem } w.total) := by
  have hdecode : decode wild src dst =
      let r := decodeLoop (src.load wild) (bufFreeLength dst) (getReadIter src) 0 dst.writer
      (r.1, bufAdvanceReadPtr src r.2.1,
        bufAdvanceWritePtr { dst with buffer := r.2.2.mem } r.2.2.total) := rfl
  rw [hdecode, h]

/-- Bytes written one by one and counted are put into the buffer, if they fit. -/
theorem advance_pushAll {buf : RoundBuffer} {bs : List UInt8}
    (hlen : bs.length ≤ bufFreeLength buf) :
    bufAdvanceWritePtr { buf with buffer := (buf.writer.pushAll bs).mem }
      (buf.writer.pushAll bs).total = buf.put bs := by
  by_cases hfull : buf.length = buf.capacity
  · have hnil : bs = [] := by
      rw [bufFreeLength, hfull, Nat.sub_self, Nat.le_zero, List.length_eq_zero_iff] at hlen
      exact hlen
    subst hnil
    rw [RoundBuffer.put, RoundBuffer.store, storeAt_nil]
    rfl
  · have hroom := hlen.trans (bufFreeLength_le_length_iovAddrs buf)
    rw [buf.writer.mem_pushAll (at_getWriteIter hfull) hroom, WriteState.total_pushAll]
    change bufAdvanceWritePtr _ (0 + bs.length) = _
    rw [Nat.zero_add]
    rfl

/-! ### Encoding -/

/-- Payload bytes as they are in a frame. -/
abbrev escaped (bs : List UInt8) : List UInt8 := stuff endByte escByte bs

/-- The payload bytes that `encode` takes when there are `n` places for them. -/
abbrev fitting (n : ℕ) (bs : List UInt8) : List UInt8 := fit endByte escByte n bs

def dataFrame (id : UInt8) (bs : List UInt8) : List UInt8 :=
  endByte :: id :: (escaped bs ++ [endByte])

def commandFrame (cmd arg : UInt8) : List UInt8 := [endByte, 0, cmd, arg, endByte]

theorem encodeLoop_eq (src : ℕ → UInt8) (n : ℕ) (h : it.At as) (srcTotal : ℕ) (w : WriteState) :
    encodeLoop src n it srcTotal w = (w.pushAll (escaped (fitting n (as.map src))),
      srcTotal + (fitting n (as.map src)).length) := by
  induction n using Nat.strong_induction_on generalizing it as srcTotal w with
  | _ n ih =>
    obtain ⟨a, as, rfl⟩ := List.exists_cons_of_ne_nil h.ne_nil
    have hptr := h.ptr
    obtain ⟨hnext, hat⟩ := h.next
    match n with
    | 0 => simp [encodeLoop, fit]
    | 1 =>
      by_cases hb : src a = escByte ∨ src a = endByte
      · simp [encodeLoop, fit, hptr, hb]
      · simp [encodeLoop, fit, hptr, hb, stuff]
    | n + 2 =>
      rw [List.map_cons, encodeLoop, hptr, hnext]
      dsimp only
      by_cases hb : src a = escByte ∨ src a = endByte
      · rw [if_pos hb, fitting, fit_cons, if_pos hb]
        cases as with
        | nil => simp [stuff, hb]
        | cons a' as =>
          rw [if_pos (by rfl), ih n (by omega) (hat (List.cons_ne_nil _ _))]
          simp only [escaped, stuff, if_pos hb, WriteState.pushAll_cons, List.length_cons]
          rw [Nat.add_right_comm, Nat.add_assoc]
      · rw [if_neg hb, fitting, fit_cons, if_neg hb]
        cases as with
        | nil => simp [stuff, hb]
        | cons a' as =>
          rw [if_pos (by rfl), ih (n + 1) (by omega) (hat (List.cons_ne_nil _ _))]
          simp only [escaped, stuff, if_neg hb, WriteState.pushAll_cons, List.length_cons]
          rw [Nat.add_right_comm, Nat.add_assoc]

/-- The contents of a buffer are what its reading iterator comes to. -/
theorem exists_contents_eq_cons {buf : RoundBuffer} (h : buf.length ≠ 0) :
    ∃ bs, buf.contents = buf.buffer (getReadIter buf).ptr :: bs := by
  have hat := at_getReadIter h
  obtain ⟨a, as, has⟩ := List.exists_cons_of_ne_nil hat.ne_nil
  rw [has] at hat
  rw [RoundBuffer.contents, has, List.map_cons, hat.ptr]
  exact ⟨_, rfl⟩

theorem length_dataFrame (id : UInt8) (bs : List UInt8) :
    (dataFrame id bs).length = (escaped bs).length + 3 := by
  simp [dataFrame]

/-- The bytes that `encode` takes from `src` when it appends a frame to `dst`. -/
def takenBytes (src dst : RoundBuffer) : List UInt8 := fitting (bufFreeLength dst - 3) src.contents

theorem takenBytes_eq (src dst : RoundBuffer) :
    takenBytes src dst = src.contents.take (takenBytes src dst).length := fit_eq_take _ _

theorem length_takenBytes_le (src dst : RoundBuffer) :
    (takenBytes src dst).length ≤ src.length := by
  rw [takenBytes_eq, List.length_take, src.length_contents]
  exact Nat.min_le_right _ _

/-- **`encode` appends one frame**, or it does nothing. -/
theorem encode_spec (src dst : RoundBuffer) (id : UInt8) :
    encode src dst id = (bufEmpty src, src, dst) ∨
      src.length ≠ 0 ∧ (dataFrame id (takenBytes src dst)).length ≤ bufFreeLength dst ∧
        encode src dst id = (true, bufAdvanceReadPtr src (takenBytes src dst).length,
          dst.put (dataFrame id (takenBytes src dst))) := by
  unfold encode bufDataLength
  by_cases hempty : src.length = 0
  · rw [if_pos hempty, (bufEmpty_iff src).mpr hempty]
    exact .inl rfl
  rw [if_neg hempty]
  dsimp only
  split_ifs with hroom
  · rw [Bool.eq_false_of_not_eq_true fun h => hempty ((bufEmpty_iff src).mp h)]
    exact .inl rfl
  · refine .inr ⟨hempty, ?_, ?_⟩
    all_goals
      have hfit : (escaped (takenBytes src dst)).length ≤ bufFreeLength dst - 3 :=
        length_stuff_fit _ _
      have hlen : (dataFrame id (takenBytes src dst)).length ≤ bufFreeLength dst := by
        rw [length_dataFrame]
        omega
    · exact hlen
    · rw [encodeLoop_eq _ _ (at_getReadIter hempty), Nat.zero_add]
      have hframe : (((dst.writer.push endByte).push id).pushAll
          (escaped (takenBytes src dst))).push endByte =
            dst.writer.pushAll (dataFrame id (takenBytes src dst)) := by
        rw [dataFrame, WriteState.pushAll_cons, WriteState.pushAll_cons, WriteState.pushAll_append]
        rfl
      rw [← advance_pushAll hlen, ← hframe]
      rfl

/-- With enough room `encode` takes everything. -/
theorem encode_of_room {src dst : RoundBuffer} {id : UInt8} (hsrc : src.length ≠ 0)
    (hroom : (dataFrame id src.contents).length ≤ bufFreeLength dst) :
    encode src dst id =
      (true, bufAdvanceReadPtr src src.length, dst.put (dataFrame id src.contents)) := by
  rw [length_dataFrame] at hroom
  have htaken : takenBytes src dst = src.contents := fit_of_length_le (by
    change (escaped src.contents).length ≤ _
    omega)
  rcases encode_spec src dst id with hnone | ⟨-, -, hencode⟩
  · -- the room is enough for the first byte
    obtain ⟨bs, hbs⟩ := exists_contents_eq_cons hsrc
    have hfirst : (encode src dst id).1 = true := by
      unfold encode bufDataLength
      rw [if_neg hsrc]
      dsimp only
      rw [if_neg]
      rw [hbs, escaped, stuff] at hroom
      rintro (hfew | ⟨hesc, hfew⟩)
      · split_ifs at hroom <;> simp only [List.length_cons] at hroom <;> omega
      · rw [if_pos (.inl hesc), List.length_cons, List.length_cons] at hroom
        omega
    rw [hnone, bufEmpty, beq_iff_eq] at hfirst
    exact absurd hfirst hsrc
  · rw [hencode, htaken, src.length_contents]

/-- **`encode_command` appends one frame**, or it does nothing. -/
theorem encodeCommand_spec (dst : RoundBuffer) (cmd arg : UInt8) :
    encodeCommand dst cmd arg = (false, dst) ∨
      (commandFrame cmd arg).length ≤ bufFreeLength dst ∧
        encodeCommand dst cmd arg = (true, dst.put (commandFrame cmd arg)) := by
  unfold encodeCommand
  split_ifs with hroom
  · exact .inl rfl
  · have hlen : (commandFrame cmd arg).length ≤ bufFreeLength dst := by
      simp only [commandFrame, List.length_cons, List.length_nil]
      omega
    refine .inr ⟨hlen, ?_⟩
    have htotal : (dst.writer.pushAll (commandFrame cmd arg)).total = 5 :=
      WriteState.total_pushAll _ _
    have hput := advance_pushAll hlen
    rw [htotal, commandFrame] at hput
    simp only [WriteState.pushAll_cons, WriteState.pushAll_nil] at hput
    exact congrArg (Prod.mk true) hput

/-! ### Decoding -/

theorem load_eq {buf : RoundBuffer} (wild : ℕ → UInt8) :
    buf.dataAddrs.map (buf.load wild) = buf.contents :=
  List.map_congr_left fun _ ha => if_pos (ringAddrs_lt buf.capacity_pos ha)

/-- A frame that is there as a whole has an end byte, and no more is behind it than there is. -/
theorem ne_nil_and_le_of_unstuff {load : ℕ → UInt8} {xs rest : List UInt8}
    (hrest : unstuff endByte escByte (as.map load) = some (xs, rest)) :
    as ≠ [] ∧ rest.length ≤ as.length := by
  constructor
  · rintro rfl
    simp [unstuff] at hrest
  · have hlt := length_lt_of_unstuff hrest
    rw [List.length_map] at hlt
    exact hlt.le

/-- The loop of `decode` on a frame that is there as a whole. -/
theorem decodeLoop_eq {load : ℕ → UInt8} {n : ℕ} (h : it.At as) {xs rest : List UInt8}
    (hframe : unstuff endByte escByte (as.map load) = some (xs, rest)) (hroom : xs.length < n)
    (srcTotal : ℕ) (w : WriteState) :
    decodeLoop load n it srcTotal w =
      (true, srcTotal + (as.length - rest.length), w.pushAll xs) := by
  induction n generalizing it as xs srcTotal w with
  | zero => exact absurd hroom (Nat.not_lt_zero _)
  | succ n ih =>
    obtain ⟨a, as, rfl⟩ := List.exists_cons_of_ne_nil h.ne_nil
    obtain ⟨hnext, hat⟩ := h.next
    rw [List.map_cons] at hframe
    rw [decodeLoop, h.ptr]
    dsimp only
    by_cases hfin : load a = endByte
    · rw [hfin, unstuff_cons_fin] at hframe
      obtain ⟨rfl, rfl⟩ := Prod.mk.inj (Option.some.inj hframe)
      rw [if_pos hfin, List.length_map, List.length_cons, Nat.add_sub_cancel_left]
      rfl
    · rw [if_neg hfin]
      by_cases hesc : load a = escByte
      · cases as with
        | nil => simp [unstuff, hesc, show escByte ≠ endByte by decide] at hframe
        | cons a' as =>
          have hat' := hat (List.cons_ne_nil _ _)
          obtain ⟨hnext', hat''⟩ := hat'.next
          rw [hesc, List.map_cons, unstuff_cons_esc (by decide)] at hframe
          obtain ⟨⟨xs', rest'⟩, hrest, hxs⟩ := Option.map_eq_some_iff.mp hframe
          obtain ⟨rfl, rfl⟩ := Prod.mk.inj hxs
          obtain ⟨hne, hle⟩ := ne_nil_and_le_of_unstuff hrest
          simp only [hesc, if_true, hat'.ptr]
          rw [if_pos (hnext'.trans (by simpa using hne)),
            ih (hat'' hne) hrest (by simpa using hroom)]
          simp only [List.length_cons, WriteState.pushAll_cons, Prod.mk.injEq, and_true, true_and]
          omega
      · rw [unstuff_cons_of_ne hfin hesc] at hframe
        obtain ⟨⟨xs', rest'⟩, hrest, hxs⟩ := Option.map_eq_some_iff.mp hframe
        obtain ⟨rfl, rfl⟩ := Prod.mk.inj hxs
        obtain ⟨hne, hle⟩ := ne_nil_and_le_of_unstuff hrest
        simp only [hesc, if_false]
        rw [if_pos (hnext.trans (by simpa using hne)), ih (hat hne) hrest (by simpa using hroom)]
        simp only [List.length_cons, WriteState.pushAll_cons, Prod.mk.injEq, and_true, true_and]
        omega

/-- `decode` of a frame that is there as a whole, when there is more room than payload. -/
theorem decode_of_unstuff (wild : ℕ → UInt8) {src dst : RoundBuffer} {xs rest : List UInt8}
    (hframe : unstuff endByte escByte src.contents = some (xs, rest))
    (hroom : xs.length < bufFreeLength dst) :
    decode wild src dst = (true, bufAdvanceReadPtr src (src.length - rest.length),
      bufAdvanceWritePtr { dst with buffer := (dst.writer.pushAll xs).mem }
        (dst.writer.pushAll xs).total) := by
  have hne : src.length ≠ 0 := by
    intro hzero
    rw [src.contents_eq_nil_iff.mpr hzero] at hframe
    simp [unstuff] at hframe
  rw [← load_eq wild] at hframe
  have hloop := decodeLoop_eq (at_getReadIter hne) hframe hroom 0 dst.writer
  rw [decode_of_loop hloop, RoundBuffer.length_dataAddrs, Nat.zero_add]

/-- **`decode` delivers a frame as a whole** when its end is there and there is more room than
payload. -/
theorem decode_spec (wild : ℕ → UInt8) {src dst : RoundBuffer} {xs rest : List UInt8}
    (hframe : unstuff endByte escByte src.contents = some (xs, rest))
    (hroom : xs.length < bufFreeLength dst) :
    decode wild src dst =
      (true, bufAdvanceReadPtr src (src.length - rest.length), dst.put xs) := by
  rw [decode_of_unstuff wild hframe hroom, advance_pushAll hroom.le]

/-- What a frame that was there as a whole leaves in the two buffers, wrapped or not. -/
theorem contents_decode_of_unstuff (wild : ℕ → UInt8) {src dst : RoundBuffer} {xs rest : List UInt8}
    (hframe : unstuff endByte escByte src.contents = some (xs, rest))
    (hroom : xs.length < bufFreeLength dst) :
    (decode wild src dst).2.1.contents = rest ∧
      (decode wild src dst).2.2.length = dst.length + xs.length := by
  have hle := dst.length_le
  rw [decode_of_unstuff wild hframe hroom]
  dsimp only
  refine ⟨?_, ?_⟩
  · rw [contents_bufAdvanceReadPtr, ← RoundBuffer.length_contents]
    exact drop_of_unstuff hframe
  · rw [length_bufAdvanceWritePtr, WriteState.total_pushAll]
    unfold bufFreeLength at hroom
    change min (dst.length + (0 + xs.length)) dst.capacity = _
    omega

/-- The loop counts the bytes that it takes. -/
theorem le_decodeLoop (load : ℕ → UInt8) (n : ℕ) (it : BufIter) (srcTotal : ℕ) (w : WriteState) :
    srcTotal ≤ (decodeLoop load n it srcTotal w).2.1 := by
  induction n generalizing it srcTotal w with
  | zero => exact Nat.le_refl _
  | succ n ih =>
    unfold decodeLoop
    dsimp only
    split_ifs
    · exact Nat.le_succ _
    · exact (Nat.le_add_right _ 2).trans (ih _ _ _)
    · exact Nat.le_add_right _ 2
    · exact (Nat.le_succ _).trans (ih _ _ _)
    · exact Nat.le_succ _

/-- The loop finds the end of the frame within its room, or takes everything, or fills its room. -/
theorem decodeLoop_result (load : ℕ → UInt8) (n : ℕ) (h : it.At as) (srcTotal : ℕ)
    (w : WriteState) :
    (∃ xs rest, unstuff endByte escByte (as.map load) = some (xs, rest) ∧ xs.length < n) ∨
      srcTotal + as.length ≤ (decodeLoop load n it srcTotal w).2.1 ∨
      (decodeLoop load n it srcTotal w).1 = false ∧
        (decodeLoop load n it srcTotal w).2.2.total = w.total + n := by
  induction n generalizing it as srcTotal w with
  | zero => exact .inr (.inr ⟨rfl, rfl⟩)
  | succ n ih =>
    obtain ⟨a, as, rfl⟩ := List.exists_cons_of_ne_nil h.ne_nil
    obtain ⟨hnext, hat⟩ := h.next
    rw [List.map_cons, decodeLoop, h.ptr]
    dsimp only
    by_cases hfin : load a = endByte
    · rw [hfin]
      exact .inl ⟨[], _, unstuff_cons_fin _, Nat.succ_pos n⟩
    rw [if_neg hfin]
    -- what the rest of the loop does, in terms of the rest of the bytes
    have hrest {it' : BufIter} {as' : List ℕ} (hat' : it'.At as') (b c : UInt8) (k : ℕ)
        (hk : k + as'.length = as.length + 1)
        (hunstuff : unstuff endByte escByte (load a :: as.map load) =
          (unstuff endByte escByte (as'.map load)).map fun r => (b :: r.1, r.2)) :
        (∃ xs rest, unstuff endByte escByte (load a :: as.map load) = some (xs, rest) ∧
            xs.length < n + 1) ∨
          srcTotal + (as.length + 1) ≤ (decodeLoop load n it' (srcTotal + k) (w.push c)).2.1 ∨
          (decodeLoop load n it' (srcTotal + k) (w.push c)).1 = false ∧
            (decodeLoop load n it' (srcTotal + k) (w.push c)).2.2.total = w.total + (n + 1) := by
      rcases ih hat' (srcTotal + k) (w.push c) with ⟨xs, rest, hxs, hlt⟩ | htaken | ⟨hfalse, hfull⟩
      · exact .inl ⟨b :: xs, rest, by rw [hunstuff, hxs]; rfl, Nat.succ_lt_succ hlt⟩
      · exact .inr (.inl (by omega))
      · refine .inr (.inr ⟨hfalse, hfull.trans ?_⟩)
        change w.total + 1 + n = _
        omega
    by_cases hesc : load a = escByte
    · simp only [hesc, if_true]
      cases as with
      | nil =>
        -- the escaped byte is not there yet, and the iterator leaves the array
        refine .inr (.inl ?_)
        have hle : ∀ it' c, srcTotal + 1 ≤ (decodeLoop load n it' (srcTotal + 2) (w.push c)).2.1 :=
          fun it' c => (Nat.le_succ _).trans (le_decodeLoop load n it' (srcTotal + 2) (w.push c))
        split
        · exact hle _ _
        · exact Nat.le_succ _
      | cons a' as =>
        have hat' := hat (List.cons_ne_nil _ _)
        obtain ⟨hnext', hat''⟩ := hat'.next
        rw [hat'.ptr]
        cases as with
        | nil =>
          rw [if_neg (by rw [hnext']; simp)]
          exact .inr (.inl (by simp))
        | cons a'' as =>
          rw [if_pos (by rw [hnext']; rfl)]
          have := hrest (hat'' (List.cons_ne_nil _ _)) (load a') (load a') 2 (by simp; omega) (by
            rw [hesc]
            exact unstuff_cons_esc (by decide) _ _)
          rwa [hesc] at this
    · simp only [hesc, if_false]
      cases as with
      | nil =>
        rw [if_neg (by rw [hnext]; simp)]
        exact .inr (.inl (by simp))
      | cons a' as =>
        rw [if_pos (by rw [hnext]; rfl)]
        exact hrest (hat (List.cons_ne_nil _ _)) (load a) (load a) 1 (by simp; omega)
          (unstuff_cons_of_ne hfin hesc _)

/-- **What `decode` does when it does not deliver a frame as a whole**: it takes every byte, or it
does not find the end and fills its room. -/
theorem decode_cases (wild : ℕ → UInt8) (src dst : RoundBuffer) :
    (∃ xs rest, unstuff endByte escByte src.contents = some (xs, rest) ∧
        xs.length < bufFreeLength dst) ∨
      (decode wild src dst).2.1.length = 0 ∨
      (decode wild src dst).1 = false ∧ (decode wild src dst).2.2.length = dst.capacity := by
  have hle := dst.length_le
  have hfull (n : ℕ) (mem : ℕ → UInt8) (hn : bufFreeLength dst ≤ n) :
      (bufAdvanceWritePtr { dst with buffer := mem } n).length = dst.capacity := by
    rw [length_bufAdvanceWritePtr]
    unfold bufFreeLength at hn
    dsimp only
    omega
  unfold decode
  dsimp only
  by_cases hempty : src.length = 0
  · refine .inr (.inl ?_)
    rw [length_bufAdvanceReadPtr]
    omega
  · rcases decodeLoop_result (src.load wild) (bufFreeLength dst) (at_getReadIter hempty) 0
      dst.writer with hframe | htaken | ⟨hfalse, htotal⟩
    · rw [load_eq] at hframe
      exact .inl hframe
    · refine .inr (.inl ?_)
      rw [RoundBuffer.length_dataAddrs, Nat.zero_add] at htaken
      rw [length_bufAdvanceReadPtr]
      exact Nat.sub_eq_zero_of_le htaken
    · exact .inr (.inr ⟨hfalse, hfull _ _ (htotal.trans (Nat.zero_add _)).ge⟩)

end OsTasks.PortForwarding
