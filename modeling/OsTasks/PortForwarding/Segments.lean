import OsTasks.PortForwarding.Fifo
import OsTasks.PortForwarding.FrameBytes
import OsTasks.PortForwarding.FreeCells

/-!
# Frames that arrive in pieces

`recv_from_tunnel` calls `decode` with whatever part of a frame has arrived, so the payload and the
end of a frame come in pieces that the network has cut. `decode` keeps no state between its calls.
It takes a piece that ends behind a payload byte as far as it goes. When a piece ends between an
escape byte and the byte it escapes, `decode` moves on without looking whether there is a next
byte, and takes what is behind the unread bytes. What it takes is stored behind the unread bytes of
the destination, if these do not run past the end of its array.

## Main definitions

* `decodeLoads`: the places at which `decode` loads a byte.
* `decodeCalls`: the calls of `decode` for a sequence of pieces.
* `Segmented`: the calls deliver the payload, find its end, and load unread bytes only.
* `CutsEscape`: a piece ends behind an escape byte.

## Main results

* `decodeLoop_escaped`: how the loop goes through the payload.
* `decode_segments`: the segmentations with which `decode` works.
-/

namespace OsTasks.PortForwarding

/-! ### The bytes that are loaded -/

/-- The iterators at which the loop of `decode` loads a byte, the first one first. -/
def decodeLoads (load : ℕ → UInt8) : ℕ → BufIter → List BufIter
  | 0, _ => []
  | n + 1, it =>
    if load it.ptr = endByte then [it]
    else if load it.ptr = escByte then
      let it' := (bufIterNext it).2
      let next := bufIterNext it'
      it :: it' :: if next.1 then decodeLoads load n next.2 else []
    else
      let next := bufIterNext it
      it :: if next.1 then decodeLoads load n next.2 else []

/-- The iterator is at one of the addresses `as`, and has not passed its last region. -/
def BufIter.Inside (as : List ℕ) (it : BufIter) : Prop := it.ptr ∈ as ∧ it.iovInd < it.iov.length

variable {load : ℕ → UInt8} {it : BufIter} {as : List ℕ}

theorem BufIter.Inside.mono {as' : List ℕ} (h : it.Inside as) (hsub : as ⊆ as') : it.Inside as' :=
  ⟨hsub h.1, h.2⟩

theorem BufIter.At.inside (h : it.At as) : it.Inside as := by
  obtain ⟨a, as, rfl⟩ := List.exists_cons_of_ne_nil h.ne_nil
  exact ⟨h.ptr ▸ List.mem_cons_self, h.ind⟩

/-! ### Through the payload -/

/-- One payload byte with something behind it. -/
theorem decodeLoop_unit (h : it.At as) {x : UInt8} {bytes : List UInt8} (hne : bytes ≠ [])
    (hload : as.map load = escaped [x] ++ bytes) (n srcTotal : ℕ) (w : WriteState) :
    ∃ it' as', it'.At as' ∧ as'.map load = bytes ∧ as' ⊆ as ∧
      decodeLoop load (n + 1) it srcTotal w =
        decodeLoop load n it' (srcTotal + (escaped [x]).length) (w.push x) ∧
      ∃ loads, decodeLoads load (n + 1) it = loads ++ decodeLoads load n it' ∧
        ∀ i ∈ loads, i.Inside as := by
  obtain ⟨a, as, rfl⟩ := List.exists_cons_of_ne_nil h.ne_nil
  obtain ⟨hnext, hat⟩ := h.next
  rw [decodeLoop, decodeLoads, h.ptr]
  dsimp only
  by_cases hx : x = escByte ∨ x = endByte
  · rw [escaped, stuff, if_pos hx, stuff_nil, List.map_cons, List.cons_append, List.cons_append,
      List.nil_append] at hload
    obtain ⟨ha, hload⟩ := List.cons.inj hload
    obtain ⟨a', as, rfl⟩ := List.exists_cons_of_ne_nil (l := as) (by rintro rfl; simp at hload)
    obtain ⟨ha', hload⟩ := List.cons.inj hload
    have hat' := hat (List.cons_ne_nil _ _)
    obtain ⟨hnext', hat''⟩ := hat'.next
    have hmore : as ≠ [] := by
      rintro rfl
      exact hne hload.symm
    have hfin : load a ≠ endByte := by
      rw [ha]
      decide
    rw [if_neg hfin, if_neg hfin]
    simp only [ha, if_true, hat'.ptr, ha', hnext', List.isEmpty_eq_false_iff.mpr hmore,
      Bool.not_false]
    refine ⟨_, as, hat'' hmore, hload, fun _ hm => by simp [hm], ?_, [it, (bufIterNext it).2], rfl,
      ?_⟩
    · rw [escaped, stuff, if_pos hx]
      rfl
    · simp only [List.forall_mem_cons, List.not_mem_nil, false_implies, implies_true, and_true]
      exact ⟨h.inside, hat'.inside.mono (List.subset_cons_self _ _)⟩
  · rw [escaped, stuff, if_neg hx, stuff_nil, List.map_cons, List.cons_append,
      List.nil_append] at hload
    obtain ⟨ha, hload⟩ := List.cons.inj hload
    rw [not_or] at hx
    have hmore : as ≠ [] := by
      rintro rfl
      exact hne hload.symm
    rw [ha, if_neg hx.2, if_neg hx.2]
    simp only [hx.1, if_false, hnext, List.isEmpty_eq_false_iff.mpr hmore, Bool.not_false, if_true]
    refine ⟨_, as, hat hmore, hload, List.subset_cons_self _ _, ?_, [it], rfl, ?_⟩
    · rw [escaped, stuff, if_neg (not_or.mpr hx)]
      rfl
    · simpa using h.inside

/-- **The payload.** The loop takes the payload bytes that are there, loading no other byte, and
goes on with what is behind them. -/
theorem decodeLoop_escaped (h : it.At as) {xs bytes : List UInt8} (hne : bytes ≠ [])
    (hload : as.map load = escaped xs ++ bytes) (n srcTotal : ℕ) (w : WriteState) :
    ∃ it' as', it'.At as' ∧ as'.map load = bytes ∧ as' ⊆ as ∧
      decodeLoop load (n + xs.length) it srcTotal w =
        decodeLoop load n it' (srcTotal + (escaped xs).length) (w.pushAll xs) ∧
      ∃ loads, decodeLoads load (n + xs.length) it = loads ++ decodeLoads load n it' ∧
        ∀ i ∈ loads, i.Inside as := by
  induction xs generalizing it as srcTotal w with
  | nil => exact ⟨it, as, h, hload, List.Subset.refl _, rfl, [], rfl, by simp⟩
  | cons x xs ih =>
    have hbehind : escaped xs ++ bytes ≠ [] := fun hnil => hne (List.append_eq_nil_iff.mp hnil).2
    rw [escaped, stuff_cons, List.append_assoc] at hload
    obtain ⟨it₁, as₁, hat₁, hload₁, hsub₁, hloop₁, loads₁, hloads₁, hin₁⟩ :=
      decodeLoop_unit h hbehind hload (n + xs.length) srcTotal w
    obtain ⟨it₂, as₂, hat₂, hload₂, hsub₂, hloop₂, loads₂, hloads₂, hin₂⟩ :=
      ih hat₁ hload₁ (srcTotal + (escaped [x]).length) (w.push x)
    refine ⟨it₂, as₂, hat₂, hload₂, fun _ hm => hsub₁ (hsub₂ hm), ?_, loads₁ ++ loads₂, ?_, ?_⟩
    · rw [List.length_cons, ← Nat.add_assoc, hloop₁, hloop₂, escaped, escaped, escaped,
        stuff_cons x xs, List.length_append, Nat.add_assoc]
      rfl
    · rw [List.length_cons, ← Nat.add_assoc, hloads₁, hloads₂, List.append_assoc]
    · intro i hi
      exact (List.mem_append.mp hi).elim (hin₁ i) fun hi => (hin₂ i hi).mono hsub₁

/-- The last payload byte that is there. -/
theorem decodeLoop_unit_last (h : it.At as) {x : UInt8} (hload : as.map load = escaped [x])
    (n srcTotal : ℕ) (w : WriteState) :
    decodeLoop load (n + 1) it srcTotal w = (false, srcTotal + (escaped [x]).length, w.push x) ∧
      ∀ i ∈ decodeLoads load (n + 1) it, i.Inside as := by
  obtain ⟨a, as, rfl⟩ := List.exists_cons_of_ne_nil h.ne_nil
  obtain ⟨hnext, hat⟩ := h.next
  rw [decodeLoop, decodeLoads, h.ptr]
  dsimp only
  by_cases hx : x = escByte ∨ x = endByte
  · rw [escaped, stuff, if_pos hx, stuff_nil] at hload ⊢
    rw [List.map_cons] at hload
    obtain ⟨ha, hload⟩ := List.cons.inj hload
    obtain ⟨a', as, rfl⟩ := List.exists_cons_of_ne_nil (l := as) (by rintro rfl; simp at hload)
    obtain ⟨ha', hload⟩ := List.cons.inj hload
    obtain rfl := List.map_eq_nil_iff.mp hload
    have hat' := hat (List.cons_ne_nil _ _)
    have hnext' := hat'.next.1
    have hfin : load a ≠ endByte := by
      rw [ha]
      decide
    rw [if_neg hfin, if_neg hfin]
    simp only [ha, if_true, hat'.ptr, ha', hnext', List.isEmpty_nil, Bool.not_true,
      Bool.false_eq_true, if_false]
    refine ⟨rfl, ?_⟩
    simp only [List.forall_mem_cons, List.not_mem_nil, false_implies, implies_true, and_true]
    exact ⟨h.inside, hat'.inside.mono (List.subset_cons_self _ _)⟩
  · rw [escaped, stuff, if_neg hx, stuff_nil] at hload ⊢
    rw [List.map_cons] at hload
    obtain ⟨ha, hload⟩ := List.cons.inj hload
    obtain rfl := List.map_eq_nil_iff.mp hload
    rw [not_or] at hx
    rw [ha, if_neg hx.2, if_neg hx.2]
    simp only [hx.1, if_false, hnext, List.isEmpty_nil, Bool.not_true, Bool.false_eq_true]
    exact ⟨rfl, by simpa using h.inside⟩

/-! ### One call -/

/-- The places at which a call of `decode` loads a byte. -/
def loadsOf (wild : ℕ → UInt8) (src dst : RoundBuffer) : List BufIter :=
  decodeLoads (src.load wild) (bufFreeLength dst) (getReadIter src)

variable {src dst : RoundBuffer} {xs : List UInt8}

/-- The loop of a call, up to the last bytes. -/
theorem decodeLoop_call (wild : ℕ → UInt8) (dst : RoundBuffer) {bytes : List UInt8}
    (hne : bytes ≠ [])
    (h : src.contents = escaped xs ++ bytes) {n : ℕ} (hroom : bufFreeLength dst = n + xs.length) :
    ∃ it' as', it'.At as' ∧ as'.map (src.load wild) = bytes ∧ as' ⊆ src.dataAddrs ∧
      decodeLoop (src.load wild) (bufFreeLength dst) (getReadIter src) 0 dst.writer =
        decodeLoop (src.load wild) n it' (escaped xs).length (dst.writer.pushAll xs) ∧
      ∃ loads, loadsOf wild src dst = loads ++ decodeLoads (src.load wild) n it' ∧
        ∀ i ∈ loads, i.Inside src.dataAddrs := by
  have hlen : src.length ≠ 0 := by
    rw [← src.length_contents, h, List.length_append]
    have := List.length_pos_of_ne_nil hne
    omega
  rw [loadsOf, hroom]
  rw [← load_eq wild] at h
  have := decodeLoop_escaped (at_getReadIter hlen) hne h n 0 dst.writer
  rwa [Nat.zero_add] at this

/-- A piece that ends behind a payload byte. -/
theorem decode_payload (wild : ℕ → UInt8) (dst : RoundBuffer) (hxs : xs ≠ [])
    (h : src.contents = escaped xs)
    (hroom : xs.length ≤ bufFreeLength dst) :
    decode wild src dst = (false, bufAdvanceReadPtr src src.length, dst.put xs) ∧
      ∀ i ∈ loadsOf wild src dst, i.Inside src.dataAddrs := by
  obtain ⟨ys, y, rfl⟩ := (List.eq_nil_or_concat xs).resolve_left hxs
  rw [List.concat_eq_append] at h hroom ⊢
  rw [escaped, stuff_append] at h
  have hlast : escaped [y] ≠ [] := by
    rw [escaped, stuff]
    split_ifs <;> exact List.cons_ne_nil _ _
  rw [List.length_append, List.length_singleton] at hroom
  obtain ⟨n, hn⟩ := Nat.exists_eq_add_of_le hroom
  obtain ⟨it, as, hat, hload, hsub, hloop, loads, hloads, hin⟩ :=
    decodeLoop_call wild dst hlast h (n := n + 1) (by omega)
  obtain ⟨hend, hinside⟩ := decodeLoop_unit_last hat hload n (escaped ys).length
    (dst.writer.pushAll ys)
  have hlen : (escaped ys).length + (escaped [y]).length = src.length := by
    rw [← List.length_append, ← src.length_contents, h]
  refine ⟨?_, fun i hi => ?_⟩
  · have hput : bufAdvanceWritePtr { dst with buffer := (dst.writer.pushAll (ys ++ [y])).mem }
        (dst.writer.pushAll (ys ++ [y])).total = dst.put (ys ++ [y]) :=
      advance_pushAll (by simpa using hroom)
    rw [decode_of_loop (hloop.trans hend), hlen, ← hput, WriteState.pushAll_append]
    rfl
  · rw [hloads] at hi
    exact (List.mem_append.mp hi).elim (hin i) fun hi => (hinside i hi).mono hsub

/-- The piece with the end of the frame. -/
theorem decode_end (wild : ℕ → UInt8) (dst : RoundBuffer)
    (h : src.contents = escaped xs ++ [endByte])
    (hroom : xs.length < bufFreeLength dst) :
    decode wild src dst = (true, bufAdvanceReadPtr src src.length, dst.put xs) ∧
      ∀ i ∈ loadsOf wild src dst, i.Inside src.dataAddrs := by
  obtain ⟨n, hn⟩ := Nat.exists_eq_add_of_lt hroom
  obtain ⟨it, as, hat, hload, hsub, -, loads, hloads, hin⟩ :=
    decodeLoop_call wild dst (List.cons_ne_nil _ _) h (n := n + 1) (by omega)
  have hframe : unstuff endByte escByte src.contents = some (xs, []) := by
    rw [h]
    exact unstuff_stuff (by decide) xs []
  refine ⟨decode_spec wild hframe hroom, fun i hi => ?_⟩
  · obtain ⟨a, as, rfl⟩ := List.exists_cons_of_ne_nil hat.ne_nil
    have ha : src.load wild it.ptr = endByte := by
      rw [hat.ptr]
      exact (List.cons.inj hload).1
    rw [hloads, decodeLoads, if_pos ha, List.mem_append, List.mem_singleton] at hi
    rcases hi with hi | rfl
    · exact hin i hi
    · exact hat.inside.mono hsub

/-- A piece that ends behind an escape byte: a place behind the last region is loaded. -/
theorem exists_not_inside (wild : ℕ → UInt8) (dst : RoundBuffer)
    (h : src.contents = escaped xs ++ [escByte])
    (hroom : xs.length < bufFreeLength dst) :
    ∃ i ∈ loadsOf wild src dst, ¬ i.Inside src.dataAddrs := by
  obtain ⟨n, hn⟩ := Nat.exists_eq_add_of_lt hroom
  obtain ⟨it, as, hat, hload, -, -, loads, hloads, -⟩ :=
    decodeLoop_call wild dst (List.cons_ne_nil _ _) h (n := n + 1) (by omega)
  obtain ⟨a, as, rfl⟩ := List.exists_cons_of_ne_nil hat.ne_nil
  obtain ⟨ha, hnil⟩ := List.cons.inj hload
  obtain rfl := List.map_eq_nil_iff.mp hnil
  rw [← hat.ptr] at ha
  have hfin : src.load wild it.ptr ≠ endByte := by
    rw [ha]
    decide
  refine ⟨(bufIterNext it).2, ?_, fun hin => Nat.not_lt.mpr hat.next_last hin.2⟩
  rw [hloads, decodeLoads, if_neg hfin, if_pos ha]
  simp

/-! ### Pieces that arrive one after the other -/

/-- A piece of the stream, and the destination as the call of `decode` after it finds it. -/
abbrev Arrival := List UInt8 × RoundBuffer

/-- The calls of `decode` when pieces arrive in `src`: the source and the destination of each. -/
def decodeCalls (wild : ℕ → UInt8) : RoundBuffer → List Arrival → List (RoundBuffer × RoundBuffer)
  | _, [] => []
  | src, (piece, dst) :: arrivals =>
    let src := (bufRead (.bytes piece) src).2.2
    (src, dst) :: decodeCalls wild (decode wild src dst).2.1 arrivals

/-- A call delivers the bytes `bs` behind the unread bytes of its destination, whatever its other
cells hold. -/
def Receives (wild : ℕ → UInt8) (src dst : RoundBuffer) (bs : List UInt8) : Prop :=
  ∀ mem, dst.Holds mem → (decode wild src (dst.withArray mem)).2.2.contents = dst.contents ++ bs

/-- The calls deliver the payload `p` between them, the last one and no other returns `1`, and each
loads unread bytes of its source only, without running past the end of the iterator. -/
structure Segmented (wild : ℕ → UInt8) (calls : List (RoundBuffer × RoundBuffer))
    (p : List UInt8) : Prop where
  received : ∃ parts : List (List UInt8), parts.flatten = p ∧
    List.Forall₂ (fun call bs => Receives wild call.1 call.2 bs) calls parts
  ended : calls.map (fun call => (decode wild call.1 call.2).1) =
    List.replicate (calls.length - 1) false ++ [true]
  inside : ∀ call ∈ calls, ∀ i ∈ loadsOf wild call.1 call.2, i.Inside call.1.dataAddrs

/-- A piece that is not the last one ends between an escape byte and the byte it escapes. -/
def CutsEscape (pieces : List (List UInt8)) : Prop :=
  ∃ n < pieces.length, ∃ xs, (pieces.take n).flatten = escaped xs ++ [escByte]

/-- Pieces that arrive in an empty source fit into it, and find room for the payload. -/
def Arrives (src : RoundBuffer) (p : List UInt8) (arrivals : List Arrival) : Prop :=
  ∀ a ∈ arrivals, a.1 ≠ [] ∧ a.1.length ≤ src.capacity ∧ p.length < bufFreeLength a.2

/-- The destinations that get a byte do not wrap. -/
def LaidOut (arrivals : List Arrival) : Prop :=
  ∀ a ∈ arrivals, a.1 ≠ [endByte] → a.2.Unwrapped

theorem receives_of_put {wild : ℕ → UInt8} {bs : List UInt8} (hdst : bs ≠ [] → dst.Unwrapped)
    (hroom : bs.length ≤ bufFreeLength dst)
    (hput : ∀ mem, (decode wild src (dst.withArray mem)).2.2 = (dst.withArray mem).put bs) :
    Receives wild src dst bs := by
  intro mem hmem
  rw [hput, ← contents_withArray hmem]
  by_cases hbs : bs = []
  · subst hbs
    rw [put_nil, List.append_nil]
  · have hwrap : (dst.withArray mem).Unwrapped := hdst hbs
    exact contents_put hwrap hroom

/-- Bytes that are delivered whatever the destination held are not stored in a wrapped one. -/
theorem unwrapped_of_receives {wild : ℕ → UInt8} {bs xs : List UInt8} (h : Receives wild src dst bs)
    (hxs : xs ≠ []) (hroom : xs.length ≤ bufFreeLength dst)
    (hput : ∀ mem, (decode wild src (dst.withArray mem)).2.2 = (dst.withArray mem).put xs) :
    dst.Unwrapped := by
  by_contra hwrap
  have hbs : bs ≠ [] := by
    rintro rfl
    have hlen := congrArg List.length (h _ (holds_buffer dst))
    rw [hput, withArray_buffer, RoundBuffer.length_contents, length_put_of_room hroom,
      List.append_nil, RoundBuffer.length_contents] at hlen
    have := List.length_pos_of_ne_nil hxs
    omega
  obtain ⟨mem, hmem, hlast⟩ := exists_getLast?_put hwrap hxs hroom (bs.getLast hbs + 1)
  rw [← hput, h mem hmem, List.getLast?_append_of_ne_nil _ hbs, List.getLast?_eq_some_getLast hbs,
    Option.some_inj] at hlast
  exact absurd hlast (by simp)

theorem escaped_ne_endByte (xs : List UInt8) : escaped xs ≠ [endByte] := by
  cases xs with
  | nil => simp
  | cons x xs =>
    rw [escaped, stuff]
    split_ifs with hx
    · simp [escByte, endByte]
    · exact fun h => hx (.inr (List.cons.inj h).1)

/-- A piece that arrives in an empty source is all that it holds. -/
theorem contents_bufRead_of_empty (hsrc : src.length = 0) {piece : List UInt8}
    (hlen : piece.length ≤ src.capacity) :
    (bufRead (.bytes piece) src).2.2.contents = piece ∧
      (bufRead (.bytes piece) src).2.2.capacity = src.capacity := by
  have hun : src.Unwrapped := by
    have := src.offset_lt
    unfold RoundBuffer.Unwrapped
    omega
  have hfree : bufFreeLength src = src.capacity := by
    rw [bufFreeLength, hsrc, Nat.sub_zero]
  have hiov : iovLength (bufWritingIov src) = src.capacity := by
    rw [← length_iovAddrs, iovAddrs_bufWritingIov hun, length_ringAddrs, hfree]
  have hread : (bufRead (.bytes piece) src).2.2 = src.put piece := by
    rw [bufRead_eq_put]
    unfold bufRead
    dsimp only
    rw [if_neg, hiov, List.take_of_length_le hlen]
    rw [length_bufWritingIov_eq_zero]
    have := src.capacity_pos
    omega
  rw [hread, contents_put hun (hlen.trans hfree.ge), src.contents_eq_nil_iff.mpr hsrc]
  exact ⟨rfl, rfl⟩

variable {wild : ℕ → UInt8} {arrivals : List Arrival} {p ys : List UInt8} {piece : List UInt8}

theorem Arrives.mono {src' : RoundBuffer} {p' : List UInt8} (h : Arrives src p arrivals)
    (hcap : src'.capacity = src.capacity) (hp : p'.length ≤ p.length) : Arrives src' p' arrivals :=
  fun a ha => ⟨(h a ha).1, hcap ▸ (h a ha).2.1, hp.trans_lt (h a ha).2.2⟩

theorem Arrives.ne_nil (h : Arrives src p arrivals) {q : List UInt8}
    (hq : q ∈ arrivals.map Prod.fst) : q ≠ [] := by
  obtain ⟨a, ha, rfl⟩ := List.mem_map.mp hq
  exact (h a ha).1

/-- **The call for a piece that ends behind a payload byte.** It delivers the piece, loads no byte
outside, and leaves the source empty. -/
theorem decode_piece (wild : ℕ → UInt8) (dst : RoundBuffer) (hsrc : src.length = 0)
    (hne : piece ≠ [])
    (hlen : piece.length ≤ src.capacity) (hpiece : piece = escaped ys)
    (hroom : ys.length ≤ bufFreeLength dst) :
    (decode wild (bufRead (.bytes piece) src).2.2 dst).1 = false ∧
      (ys ≠ [] ∧ ∀ mem, (decode wild (bufRead (.bytes piece) src).2.2 (dst.withArray mem)).2.2 =
        (dst.withArray mem).put ys) ∧
      (∀ i ∈ loadsOf wild (bufRead (.bytes piece) src).2.2 dst,
        i.Inside (bufRead (.bytes piece) src).2.2.dataAddrs) ∧
      (decode wild (bufRead (.bytes piece) src).2.2 dst).2.1.length = 0 ∧
      (decode wild (bufRead (.bytes piece) src).2.2 dst).2.1.capacity = src.capacity := by
  obtain ⟨hcontents, hcap⟩ := contents_bufRead_of_empty hsrc hlen
  have hys : ys ≠ [] := by
    rintro rfl
    exact hne hpiece
  have hdecode (dst : RoundBuffer) (hroom : ys.length ≤ bufFreeLength dst) :=
    decode_payload wild dst hys (hcontents.trans hpiece) hroom
  rw [(hdecode dst hroom).1]
  refine ⟨rfl, ⟨hys, fun mem => ?_⟩, (hdecode dst hroom).2, ?_, ?_⟩
  · rw [(hdecode (dst.withArray mem) hroom).1]
  · rw [length_bufAdvanceReadPtr, Nat.sub_self]
  · rw [capacity_bufAdvanceReadPtr, hcap]

/-- The first piece ends behind a payload byte, or it is cut behind an escape byte. -/
theorem first_piece_cases {pieces : List (List UInt8)}
    (hbytes : (piece :: pieces).flatten = escaped p ++ [endByte]) (hne : ∀ q ∈ pieces, q ≠ [])
    (hpieces : pieces ≠ []) :
    (∃ ys zs, p = ys ++ zs ∧ piece = escaped ys ∧ pieces.flatten = escaped zs ++ [endByte]) ∨
      ∃ ys y zs, p = ys ++ y :: zs ∧ piece = escaped ys ++ [escByte] := by
  refine stuff_of_append_eq hbytes fun hnil => ?_
  obtain ⟨q, qs, rfl⟩ := List.exists_cons_of_ne_nil hpieces
  exact hne q List.mem_cons_self (List.append_eq_nil_iff.mp hnil).1

/-- A cut of the pieces behind a first one that ends behind a payload byte. -/
theorem cutsEscape_cons_iff {pieces : List (List UInt8)} (hpiece : piece = escaped ys)
    (hbytes : pieces.flatten = escaped p ++ [endByte]) (hne : ∀ q ∈ pieces, q ≠ []) :
    CutsEscape (piece :: pieces) ↔ CutsEscape pieces := by
  refine ⟨fun ⟨n, hn, xs, hxs⟩ => ?_, fun ⟨n, hn, xs, hxs⟩ => ?_⟩
  · obtain ⟨m, rfl⟩ : ∃ m, n = m + 1 := by
      refine Nat.exists_eq_succ_of_ne_zero ?_
      rintro rfl
      simp at hxs
    have hm : m < pieces.length := by simpa using hn
    rw [List.take_succ_cons, List.flatten_cons, hpiece] at hxs
    have hback : (pieces.drop m).flatten ≠ [] := by
      rw [List.drop_eq_getElem_cons hm, List.flatten_cons]
      exact fun hnil => hne _ (List.getElem_mem hm) (List.append_eq_nil_iff.mp hnil).1
    rcases stuff_of_append_eq (by rw [← List.flatten_append, List.take_append_drop]; exact hbytes)
      hback with ⟨us, -, -, hus, -⟩ | ⟨us, -, -, -, hus⟩
    · refine absurd ?_ (stuff_ne_stuff_append_esc (show escByte ≠ endByte by decide) (ys ++ us) xs)
      rw [stuff_append, ← hus]
      exact hxs
    · exact ⟨m, hm, us, hus⟩
  · refine ⟨n + 1, Nat.succ_lt_succ hn, ys ++ xs, ?_⟩
    rw [List.take_succ_cons, List.flatten_cons, hxs, hpiece, ← List.append_assoc]
    exact congrArg (· ++ [escByte]) (stuff_append ys xs).symm

/-- **The call for the last piece.** -/
theorem decode_lastPiece (wild : ℕ → UInt8) (dst : RoundBuffer) (hsrc : src.length = 0)
    (hlen : piece.length ≤ src.capacity) (hpiece : piece = escaped p ++ [endByte])
    (hroom : p.length < bufFreeLength dst) :
    (decode wild (bufRead (.bytes piece) src).2.2 dst).1 = true ∧
      (∀ mem, (decode wild (bufRead (.bytes piece) src).2.2 (dst.withArray mem)).2.2 =
        (dst.withArray mem).put p) ∧
      ∀ i ∈ loadsOf wild (bufRead (.bytes piece) src).2.2 dst,
        i.Inside (bufRead (.bytes piece) src).2.2.dataAddrs := by
  have hcontents := (contents_bufRead_of_empty hsrc hlen).1.trans hpiece
  obtain ⟨hdecode, hin⟩ := decode_end wild dst hcontents hroom
  refine ⟨by rw [hdecode], fun mem => ?_, hin⟩
  rw [(decode_end wild (dst.withArray mem) hcontents hroom).1]

/-- Without such a cut, and with destinations that do not wrap, the calls do what they have to
do. -/
theorem segmented_of_not_cutsEscape (hsrc : src.length = 0)
    (hbytes : (arrivals.map Prod.fst).flatten = escaped p ++ [endByte])
    (harrives : Arrives src p arrivals) (hcut : ¬ CutsEscape (arrivals.map Prod.fst))
    (hlaid : LaidOut arrivals) : Segmented wild (decodeCalls wild src arrivals) p := by
  induction arrivals generalizing src p with
  | nil => simp at hbytes
  | cons arrival arrivals ih =>
    obtain ⟨piece, dst⟩ := arrival
    obtain ⟨⟨hpiece, hlen, hroom⟩, hrest⟩ := List.forall_mem_cons.mp harrives
    obtain ⟨hdst, hdsts⟩ := List.forall_mem_cons.mp hlaid
    dsimp only at hpiece hlen hroom hdst
    by_cases hlast : arrivals = []
    · subst hlast
      rw [List.map_cons, List.map_nil, List.flatten_cons, List.flatten_nil,
        List.append_nil] at hbytes
      obtain ⟨htrue, hput, hin⟩ := decode_lastPiece wild dst hsrc hlen hbytes hroom
      refine ⟨⟨[p], by simp, .cons (receives_of_put (fun hp => hdst ?_) hroom.le hput) .nil⟩,
        ?_, ?_⟩
      · intro h
        have hnil : escaped p = [] := List.append_left_eq_self.mp (hbytes.symm.trans h)
        refine hp ?_
        cases p with
        | nil => rfl
        | cons x xs =>
          rw [escaped, stuff] at hnil
          split_ifs at hnil
      · simp [decodeCalls, htrue]
      · simpa [decodeCalls] using hin
    · have hmore : arrivals.map Prod.fst ≠ [] := fun hnil => hlast (List.map_eq_nil_iff.mp hnil)
      have hne := fun q hq => Arrives.ne_nil hrest (q := q) hq
      rcases first_piece_cases hbytes hne hmore with ⟨ys, zs, rfl, hys, hzs⟩ | ⟨ys, -, -, -, hys⟩
      · rw [List.length_append] at hroom
        obtain ⟨hfalse, ⟨-, hput⟩, hin, hempty, hcap⟩ :=
          decode_piece wild dst hsrc hpiece hlen hys (by omega)
        obtain ⟨⟨parts, hparts, hreceived⟩, hended, hinside⟩ :=
          ih hempty hzs (Arrives.mono hrest hcap (by simp))
            (fun h => hcut ((cutsEscape_cons_iff hys hzs hne).mpr h)) hdsts
        have hys' : ys.length ≤ bufFreeLength dst := by omega
        have hreceives := receives_of_put
          (fun _ => hdst (hys.trans_ne (escaped_ne_endByte ys))) hys' hput
        refine ⟨⟨ys :: parts, by rw [List.flatten_cons, hparts], .cons hreceives hreceived⟩, ?_,
          List.forall_mem_cons.mpr ⟨hin, hinside⟩⟩
        obtain ⟨a, as, rfl⟩ := List.exists_cons_of_ne_nil hlast
        rw [decodeCalls, List.map_cons, hended]
        dsimp only
        rw [hfalse]
        rfl
      · exact absurd ⟨1, by simpa using List.length_pos_of_ne_nil hmore, ys,
          by simpa using hys⟩ hcut

/-- If no byte outside is loaded there is no such cut. -/
theorem not_cutsEscape_of_inside (hsrc : src.length = 0)
    (hbytes : (arrivals.map Prod.fst).flatten = escaped p ++ [endByte])
    (harrives : Arrives src p arrivals)
    (hinside : ∀ call ∈ decodeCalls wild src arrivals,
      ∀ i ∈ loadsOf wild call.1 call.2, i.Inside call.1.dataAddrs) :
    ¬ CutsEscape (arrivals.map Prod.fst) := by
  induction arrivals generalizing src p with
  | nil => simp at hbytes
  | cons arrival arrivals ih =>
    obtain ⟨piece, dst⟩ := arrival
    obtain ⟨⟨hpiece, hlen, hroom⟩, hrest⟩ := List.forall_mem_cons.mp harrives
    dsimp only at hpiece hlen hroom
    obtain ⟨hin, htail⟩ := List.forall_mem_cons.mp hinside
    have hne := fun q hq => Arrives.ne_nil hrest (q := q) hq
    by_cases hlast : arrivals = []
    · subst hlast
      rintro ⟨n, hn, xs, hxs⟩
      obtain rfl : n = 0 := by simpa using hn
      simp at hxs
    · have hmore : arrivals.map Prod.fst ≠ [] := fun hnil => hlast (List.map_eq_nil_iff.mp hnil)
      rcases first_piece_cases hbytes hne hmore with ⟨ys, zs, rfl, hys, hzs⟩ | ⟨ys, y, zs, rfl, hys⟩
      · rw [List.length_append] at hroom
        obtain ⟨-, -, -, hempty, hcap⟩ :=
          decode_piece wild dst hsrc hpiece hlen hys (by omega)
        rw [List.map_cons, cutsEscape_cons_iff hys hzs hne]
        exact ih hempty hzs (Arrives.mono hrest hcap (by simp)) htail
      · rw [List.length_append] at hroom
        obtain ⟨i, hi, hout⟩ := exists_not_inside wild dst
          ((contents_bufRead_of_empty hsrc hlen).1.trans hys) (by omega)
        exact absurd (hin i hi) hout

/-- Without such a cut, what is delivered whatever the destinations held is not stored in wrapped
ones. -/
theorem laidOut_of_received {parts : List (List UInt8)} (hsrc : src.length = 0)
    (hbytes : (arrivals.map Prod.fst).flatten = escaped p ++ [endByte])
    (harrives : Arrives src p arrivals) (hcut : ¬ CutsEscape (arrivals.map Prod.fst))
    (hreceived : List.Forall₂ (fun call bs => Receives wild call.1 call.2 bs)
      (decodeCalls wild src arrivals) parts) : LaidOut arrivals := by
  induction arrivals generalizing src p parts with
  | nil => simp at hbytes
  | cons arrival arrivals ih =>
    obtain ⟨piece, dst⟩ := arrival
    obtain ⟨⟨hpiece, hlen, hroom⟩, hrest⟩ := List.forall_mem_cons.mp harrives
    dsimp only at hpiece hlen hroom
    rw [decodeCalls] at hreceived
    cases hreceived with
    | cons hfirst hothers =>
    by_cases hlast : arrivals = []
    · subst hlast
      rw [List.map_cons, List.map_nil, List.flatten_cons, List.flatten_nil,
        List.append_nil] at hbytes
      obtain ⟨-, hput, -⟩ := decode_lastPiece wild dst hsrc hlen hbytes hroom
      refine List.forall_mem_singleton.mpr fun hend => ?_
      refine unwrapped_of_receives hfirst ?_ hroom.le hput
      rintro rfl
      exact hend hbytes
    · have hmore : arrivals.map Prod.fst ≠ [] := fun hnil => hlast (List.map_eq_nil_iff.mp hnil)
      have hne := fun q hq => Arrives.ne_nil hrest (q := q) hq
      rcases first_piece_cases hbytes hne hmore with ⟨ys, zs, rfl, hys, hzs⟩ | ⟨ys, -, -, -, hys⟩
      · rw [List.length_append] at hroom
        obtain ⟨-, ⟨hne', hput⟩, -, hempty, hcap⟩ :=
          decode_piece wild dst hsrc hpiece hlen hys (by omega)
        exact List.forall_mem_cons.mpr
          ⟨fun _ => unwrapped_of_receives hfirst hne' (Nat.le_of_add_right_le hroom.le) hput,
            ih hempty hzs (Arrives.mono hrest hcap (by simp))
              (fun h => hcut ((cutsEscape_cons_iff hys hzs hne).mpr h)) hothers⟩
      · exact absurd ⟨1, by simpa using List.length_pos_of_ne_nil hmore, ys,
          by simpa using hys⟩ hcut

/-- **Frames in pieces.** A payload `p` in its frame arrives in pieces in an empty source, and
every call of `decode` finds room for the payload. The calls deliver the payload, whatever the cells
of the destinations without unread bytes hold, return `1` for the last piece only, and load unread
bytes only, exactly if no piece ends between an escape byte and the byte it escapes, and the
destinations that get a byte do not wrap. -/
theorem decode_segments (wild : ℕ → UInt8) (hsrc : src.length = 0)
    (hbytes : (arrivals.map Prod.fst).flatten = escaped p ++ [endByte])
    (harrives : Arrives src p arrivals) :
    Segmented wild (decodeCalls wild src arrivals) p ↔
      ¬ CutsEscape (arrivals.map Prod.fst) ∧ LaidOut arrivals := by
  refine ⟨fun h => ?_, fun h => segmented_of_not_cutsEscape hsrc hbytes harrives h.1 h.2⟩
  have hcut := not_cutsEscape_of_inside hsrc hbytes harrives h.inside
  obtain ⟨parts, -, hreceived⟩ := h.received
  exact ⟨hcut, laidOut_of_received hsrc hbytes harrives hcut hreceived⟩

/-! ### Samples -/

/-- An empty buffer of eight bytes. -/
abbrev eightFree : RoundBuffer := bufCreate (fun _ => 0) (Nat.succPNat 7)

/-- A payload with both special bytes, cut in its middle. -/
def wholeUnits : List Arrival :=
  [([1, 0x7F, 0x7E], eightFree), ([2, 0x7E], eightFree)]

theorem decode_segments_wholeUnits :
    Segmented (fun _ => 0) (decodeCalls (fun _ => 0) eightFree wholeUnits)
      [1, 0x7E, 2] := by
  refine (decode_segments (fun _ => 0) rfl (by decide) ?_).mpr ⟨?_, ?_⟩
  · unfold Arrives
    decide
  · rintro ⟨n, hn, xs, hxs⟩
    have hlast := congrArg List.getLast? hxs
    rw [List.getLast?_concat] at hlast
    match n with
    | 0 => exact absurd hlast (by decide)
    | 1 => exact absurd hlast (by decide)
    | n + 2 => exact absurd hn (by simp [wholeUnits])
  · unfold LaidOut
    decide

/-- The payload is one escape byte, and the cut is behind the byte that escapes it. -/
def brokenUnit : List Arrival :=
  [([0x7F], eightFree), ([0x7F, 0x7E], eightFree)]

/-- The first call fills the destination with bytes that never arrived, and no call finds the end
of the frame. -/
theorem not_segmented_brokenUnit :
    ¬ Segmented (fun _ => 0) (decodeCalls (fun _ => 0) eightFree brokenUnit)
        [0x7F] ∧
      (decodeCalls (fun _ => 0) eightFree brokenUnit).map (fun call =>
        ((decode (fun _ => 0) call.1 call.2).1, (decode (fun _ => 0) call.1 call.2).2.2.contents)) =
          [(false, List.replicate 8 0), (false, [0x7E])] := by
  have hrun : (decodeCalls (fun _ => 0) eightFree brokenUnit).map (fun call =>
      ((decode (fun _ => 0) call.1 call.2).1, (decode (fun _ => 0) call.1 call.2).2.2.contents)) =
        [(false, List.replicate 8 0), (false, [0x7E])] := by decide +kernel
  refine ⟨fun h => ?_, hrun⟩
  have hended := h.ended
  rw [show (decodeCalls (fun _ => 0) eightFree brokenUnit).map (fun call =>
    (decode (fun _ => 0) call.1 call.2).1) = [false, false] by decide +kernel] at hended
  exact absurd hended (by decide +kernel)

end OsTasks.PortForwarding
