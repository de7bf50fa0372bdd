import OsTasks.PortForwarding.Segments

/-!
# Frames that find too little room

A frame is in the tunnel's input as a whole, but the buffer that it goes to has no room for its
payload. `decode` then delivers what fits and leaves the rest where it is, and `recv_from_tunnel`
calls it again when the pump runs next. The room may run out between two payload bytes, or behind
the last one with the end of the frame unread; it may also be none at all.

## Main definitions

* `offeredCalls`: the calls of `decode` for one frame, until its end is found.
* `Delivered`: bytes come behind the unread bytes of a destination.

## Main results

* `decode_full`, `decode_whole`: one call, without and with room to find the end.
* `decode_resumes`: the calls together deliver the frame, and nothing else.
-/

namespace OsTasks.PortForwarding

variable {src dst : RoundBuffer} {p r : List UInt8} {wild : ℕ → UInt8}

/-! ### One call -/

/-- The bytes `bs` come behind the unread bytes of a destination, in its free space. -/
structure Delivered (dst dst' : RoundBuffer) (bs : List UInt8) : Prop where
  contents : dst'.contents = dst.contents ++ bs
  fits : bs.length ≤ bufFreeLength dst

theorem delivered_put (hdst : dst.Unwrapped) {bs : List UInt8} (h : bs.length ≤ bufFreeLength dst) :
    Delivered dst (dst.put bs) bs :=
  ⟨contents_put hdst h, h⟩

/-- A frame from the point on where a call stops. -/
theorem escaped_append_eq (n : ℕ) (bytes : List UInt8) :
    escaped p ++ bytes = escaped (p.take n) ++ (escaped (p.drop n) ++ bytes) := by
  rw [← List.append_assoc, ← stuff_append, List.take_append_drop]

/-- Without more room than payload, the room is filled and the end is not found. -/
theorem decode_full (wild : ℕ → UInt8) (hdst : dst.Unwrapped)
    (h : src.contents = escaped p ++ endByte :: r) (hroom : bufFreeLength dst ≤ p.length) :
    (decode wild src dst).1 = false ∧
      (decode wild src dst).2.1.contents = escaped (p.drop (bufFreeLength dst)) ++ endByte :: r ∧
      Delivered dst (decode wild src dst).2.2 (p.take (bufFreeLength dst)) := by
  have hlen : (p.take (bufFreeLength dst)).length = bufFreeLength dst :=
    List.length_take_of_le hroom
  have hbytes : src.contents = escaped (p.take (bufFreeLength dst)) ++
      (escaped (p.drop (bufFreeLength dst)) ++ endByte :: r) := by
    rw [h]
    exact escaped_append_eq _ _
  obtain ⟨it, as, -, -, -, hloop, -⟩ := decodeLoop_call wild dst (by simp) hbytes (n := 0)
    (by rw [hlen, Nat.zero_add])
  have hdecode : decode wild src dst =
      (false, bufAdvanceReadPtr src (escaped (p.take (bufFreeLength dst))).length,
        dst.put (p.take (bufFreeLength dst))) := by
    rw [decode_of_loop hloop, ← advance_pushAll hlen.le]
  rw [hdecode]
  refine ⟨rfl, ?_, delivered_put hdst hlen.le⟩
  rw [contents_bufAdvanceReadPtr, hbytes, List.drop_left]

/-- With more room than payload, the payload is delivered and the end of the frame is taken. -/
theorem decode_whole (wild : ℕ → UInt8) (hdst : dst.Unwrapped)
    (h : src.contents = escaped p ++ endByte :: r) (hroom : p.length < bufFreeLength dst) :
    (decode wild src dst).1 = true ∧ (decode wild src dst).2.1.contents = r ∧
      Delivered dst (decode wild src dst).2.2 p := by
  have hframe : unstuff endByte escByte src.contents = some (p, r) := by
    rw [h]
    exact unstuff_stuff (by decide) p r
  have hdecode := decode_spec wild hframe hroom
  refine ⟨by rw [hdecode], (contents_decode_of_unstuff wild hframe hroom).1, ?_⟩
  rw [hdecode]
  exact delivered_put hdst hroom.le

/-! ### One call after the other -/

/-- The calls of `decode` on a source when destinations are offered one after the other, up to the
call that finds the end of the frame: the source and the destination of each, and the source
behind the last one. -/
def offeredCalls (wild : ℕ → UInt8) :
    RoundBuffer → List RoundBuffer → List (RoundBuffer × RoundBuffer) × RoundBuffer
  | src, [] => ([], src)
  | src, dst :: dsts =>
    let r := decode wild src dst
    if r.1 then ([(src, dst)], r.2.1)
    else
      let rest := offeredCalls wild r.2.1 dsts
      ((src, dst) :: rest.1, rest.2)

/-- The free space of the destinations together. -/
def offeredRoom (dsts : List RoundBuffer) : ℕ := (dsts.map bufFreeLength).sum

@[simp] theorem offeredRoom_cons (dst : RoundBuffer) (dsts : List RoundBuffer) :
    offeredRoom (dst :: dsts) = bufFreeLength dst + offeredRoom dsts := by
  simp [offeredRoom]

/-- The calls deliver the bytes `bs` between them. -/
def DeliversAll (wild : ℕ → UInt8) (calls : List (RoundBuffer × RoundBuffer)) (bs : List UInt8) :
    Prop :=
  ∃ parts : List (List UInt8), parts.flatten = bs ∧
    List.Forall₂ (fun call part => Delivered call.2 (decode wild call.1 call.2).2.2 part)
    calls parts

theorem DeliversAll.cons {calls : List (RoundBuffer × RoundBuffer)} {bs part : List UInt8}
    (hpart : Delivered dst (decode wild src dst).2.2 part) (h : DeliversAll wild calls bs) :
    DeliversAll wild ((src, dst) :: calls) (part ++ bs) := by
  obtain ⟨parts, rfl, hparts⟩ := h
  exact ⟨part :: parts, List.flatten_cons, .cons hpart hparts⟩

/-- What the calls return: `0`, but for the last one if it has found the end. -/
def returned (wild : ℕ → UInt8) (calls : List (RoundBuffer × RoundBuffer)) : List Bool :=
  calls.map fun call => (decode wild call.1 call.2).1

/-- **`decode` resumes.** The payload `p` of a frame is in the source with the end of the frame and
the bytes `r` behind it, and unwrapped destinations are offered to `decode` one after the other.
As long as all their free space is not more than the payload, every call returns `0`, the free
space is filled with the front of the payload, and the rest of the frame stays in the source. With
more free space the last call and no other returns `1`, the payload has been delivered, and `r` is
what is left. -/
theorem decode_resumes (wild : ℕ → UInt8) (src : RoundBuffer) (p r : List UInt8)
    (hsrc : src.contents = escaped p ++ endByte :: r) (dsts : List RoundBuffer)
    (hdsts : ∀ dst ∈ dsts, dst.Unwrapped) :
    let calls := offeredCalls wild src dsts
    DeliversAll wild calls.1 (p.take (offeredRoom dsts)) ∧ calls.1.map Prod.snd <+: dsts ∧
      (offeredRoom dsts ≤ p.length → returned wild calls.1 = List.replicate dsts.length false ∧
        calls.2.contents = escaped (p.drop (offeredRoom dsts)) ++ endByte :: r) ∧
      (p.length < offeredRoom dsts →
        returned wild calls.1 = List.replicate (calls.1.length - 1) false ++ [true] ∧
          calls.2.contents = r) := by
  induction dsts generalizing src p with
  | nil =>
    refine ⟨⟨[], rfl, .nil⟩, List.nil_prefix, fun _ => ⟨rfl, hsrc⟩, fun h => ?_⟩
    exact absurd h (Nat.not_lt_zero _)
  | cons dst dsts ih =>
    obtain ⟨hdst, hrest⟩ := List.forall_mem_cons.mp hdsts
    rw [offeredRoom_cons, offeredCalls]
    rcases Nat.lt_or_ge p.length (bufFreeLength dst) with hroom | hroom
    · obtain ⟨htrue, hleft, hdelivered⟩ := decode_whole wild hdst hsrc hroom
      have htake : p.take (bufFreeLength dst + offeredRoom dsts) = p :=
        List.take_of_length_le (by omega)
      simp only [htrue, if_true]
      refine ⟨?_, by simp, fun h => by omega, fun _ => ⟨by simp [returned, htrue], hleft⟩⟩
      rw [htake]
      exact ⟨[p], by simp, .cons hdelivered .nil⟩
    · obtain ⟨hfalse, hleft, hdelivered⟩ := decode_full wild hdst hsrc hroom
      obtain ⟨hall, hpre, hwaiting, hended⟩ := ih _ _ hleft hrest
      rw [List.length_drop] at hwaiting hended
      simp only [hfalse, Bool.false_eq_true, if_false]
      refine ⟨?_, ?_, fun h => ?_, fun h => ?_⟩
      · rw [List.take_add]
        exact hall.cons hdelivered
      · exact List.cons_prefix_cons.mpr ⟨rfl, hpre⟩
      · obtain ⟨hreturned, hcontents⟩ := hwaiting (by omega)
        rw [List.drop_drop] at hcontents
        refine ⟨?_, hcontents⟩
        rw [List.length_cons, List.replicate_succ, ← hreturned, returned, List.map_cons, hfalse]
        rfl
      · obtain ⟨hreturned, hcontents⟩ := hended (by omega)
        refine ⟨?_, hcontents⟩
        obtain ⟨call, calls, hcalls⟩ : ∃ call calls,
            (offeredCalls wild (decode wild src dst).2.1 dsts).1 = call :: calls := by
          refine List.exists_cons_of_ne_nil fun hnil => ?_
          rw [hnil] at hreturned
          exact absurd hreturned (by simp [returned])
        rw [hcalls] at hreturned ⊢
        rw [returned, List.map_cons, hfalse]
        exact congrArg (List.cons false) hreturned

/-! ### A sample -/

/-- A frame with an escaped byte, which wraps around the source, and a byte behind it. -/
def wrappedFrame : RoundBuffer :=
  (bufAdvanceReadPtr ((bufCreate (fun _ => 0) (Nat.succPNat 5)).put [0, 0, 1]) 2).put
    [0x7F, 0x7F, 0x7E, 5]

/-- A destination without room. -/
def noRoom : RoundBuffer := (bufCreate (fun _ => 0) (Nat.succPNat 0)).put [0]

/-- Room for one byte, but not at once. -/
def littleRoom : List RoundBuffer :=
  [bufCreate (fun _ => 0) (Nat.succPNat 0), noRoom, bufCreate (fun _ => 0) (Nat.succPNat 0), noRoom,
    bufCreate (fun _ => 0) (Nat.succPNat 0)]

/-- The end of the frame is found when there is room for a third byte. -/
theorem decode_resumes_littleRoom :
    DeliversAll (fun _ => 0) (offeredCalls (fun _ => 0) wrappedFrame littleRoom).1 [1, 0x7F] ∧
      returned (fun _ => 0) (offeredCalls (fun _ => 0) wrappedFrame littleRoom).1 =
        [false, false, false, false, true] ∧
      (offeredCalls (fun _ => 0) wrappedFrame littleRoom).2.contents = [5] := by
  obtain ⟨hall, -, -, hended⟩ := decode_resumes (fun _ => 0) wrappedFrame [1, 0x7F] [5] (by decide)
    littleRoom (by decide)
  obtain ⟨hreturned, hcontents⟩ := hended (by decide)
  exact ⟨hall, hreturned, hcontents⟩

end OsTasks.PortForwarding
