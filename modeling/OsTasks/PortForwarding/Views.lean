import OsTasks.PortForwarding.FrameBytes

/-!
# The views of the unread bytes

The unread bytes of a round buffer are seen in four ways: as the regions for `writev`, by an
iterator of `pump.c`, through `buf_peek`, and by dropping some of them. Each of these finds the
place where the bytes go on at the beginning of the array for itself. In every state that the
operations lead to they find the same bytes.

## Main definitions

* `RawOp`, `RawOp.run`: the operations that change a buffer.
* `BufIter.visits`: the places that an iterator comes to, with the answers of `buf_iter_next`.
* `RoundBuffer.ViewsAgree`: the four views show the same bytes.

## Main results

* `RoundBuffer.viewsAgree`: they do, in every state in which there are some.
* `views_of_run`: the bounds, the regions and the views after any operations.
-/

namespace OsTasks.PortForwarding

/-! ### Operations -/

/-- The operations that change a buffer, with any argument and any result of a system call. A holder
of the offered regions, or of an iterator over them, may write to the array. -/
inductive RawOp
  | advanceRead (length : ℕ)
  | advanceWrite (length : ℕ)
  | write (r : WriteResult)
  | read (r : ReadResult)
  | poke (buffer : ℕ → UInt8)

/-- The buffer after an operation. -/
def RawOp.run (buf : RoundBuffer) : RawOp → RoundBuffer
  | .advanceRead length => bufAdvanceReadPtr buf length
  | .advanceWrite length => bufAdvanceWritePtr buf length
  | .write r => (bufWrite r buf).2.2
  | .read r => (bufRead r buf).2.2
  | .poke buffer => { buf with buffer := buffer }

theorem capacity_run (buf : RoundBuffer) (op : RawOp) : (op.run buf).capacity = buf.capacity := by
  cases op with
  | advanceRead length => exact capacity_bufAdvanceReadPtr buf length
  | advanceWrite length => rfl
  | write r =>
    unfold RawOp.run bufWrite
    dsimp only
    split_ifs
    · rfl
    · cases r with
      | taken n => exact capacity_bufAdvanceReadPtr buf _
      | error e => rfl
  | read r =>
    unfold RawOp.run bufRead
    dsimp only
    split_ifs
    · rfl
    · cases r <;> rfl
  | poke buffer => rfl

/-- The capacity never changes. -/
theorem capacity_foldl_run (buf : RoundBuffer) (ops : List RawOp) :
    (ops.foldl RawOp.run buf).capacity = buf.capacity := by
  induction ops generalizing buf with
  | nil => rfl
  | cons op ops ih => rw [List.foldl_cons, ih, capacity_run]

/-! ### Regions -/

/-- The regions that are offered for reading are in the array. -/
theorem add_le_of_mem_bufReadingIov {buf : RoundBuffer} {v : IoVec} (h : v ∈ bufReadingIov buf) :
    v.base + v.len ≤ buf.capacity := by
  have hoff := buf.offset_lt
  have hlen := buf.length_le
  unfold bufReadingIov at h
  dsimp only at h
  split_ifs at h with hempty hend
  · exact absurd h List.not_mem_nil
  · obtain rfl := List.mem_singleton.mp h
    exact hend
  · simp only [List.mem_cons, List.not_mem_nil, or_false] at h
    rcases h with rfl | rfl <;> dsimp only <;> omega

/-- So are those that are offered for writing. -/
theorem add_le_of_mem_bufWritingIov {buf : RoundBuffer} {v : IoVec} (h : v ∈ bufWritingIov buf) :
    v.base + v.len ≤ buf.capacity := by
  have hoff := buf.offset_lt
  unfold bufWritingIov at h
  dsimp only at h
  split_ifs at h with hfull hpart hpos hpos
  all_goals
    simp only [List.mem_append, List.mem_cons, List.not_mem_nil, or_false, false_or] at h
  · rcases h with rfl | rfl <;> dsimp only <;> omega
  · subst h
    dsimp only
    omega
  · subst h
    dsimp only
    omega

/-! ### Iterators -/

/-- The first `n` places that an iterator comes to, each with what `buf_iter_next` returns there. -/
def BufIter.visits : ℕ → BufIter → List (ℕ × Bool)
  | 0, _ => []
  | n + 1, it => (it.ptr, (bufIterNext it).1) :: visits n (bufIterNext it).2

/-- An iterator comes to its addresses in turn, and `buf_iter_next` returns `0` at the last one. -/
theorem BufIter.At.visits {it : BufIter} {as : List ℕ} (h : it.At as) :
    it.visits as.length = as.zip (List.replicate (as.length - 1) true ++ [false]) := by
  induction as generalizing it with
  | nil => exact absurd rfl h.ne_nil
  | cons a as ih =>
    obtain ⟨hnext, hat⟩ := h.next
    rw [List.length_cons, BufIter.visits, h.ptr, hnext]
    cases as with
    | nil => rfl
    | cons a' as =>
      rw [ih (hat (List.cons_ne_nil _ _)), Nat.add_sub_cancel, List.length_cons,
        Nat.add_sub_cancel, List.replicate_succ, List.cons_append, List.zip_cons_cons]
      rfl

/-! ### Views -/

/-- The unread bytes are those at the `length` places from `offset` on, around the array, and all
views show them. -/
structure RoundBuffer.ViewsAgree (buf : RoundBuffer) : Prop where
  regions : iovAddrs (bufReadingIov buf) =
    (List.range buf.length).map fun i => (buf.offset + i) % buf.capacity
  visits : (getReadIter buf).visits buf.length =
    (iovAddrs (bufReadingIov buf)).zip (List.replicate (buf.length - 1) true ++ [false])
  contents : buf.contents = (iovAddrs (bufReadingIov buf)).map buf.buffer
  peek : ∀ n, bufPeek buf n = some (buf.contents.take (min n buf.length))
  advance : ∀ n, (bufAdvanceReadPtr buf n).contents = buf.contents.drop (min n buf.length)

/-- **The views agree.** -/
theorem RoundBuffer.viewsAgree {buf : RoundBuffer} (h : 0 < buf.length) : buf.ViewsAgree where
  regions := iovAddrs_bufReadingIov buf
  visits := by
    have hvisits := (at_getReadIter h.ne').visits
    rwa [length_dataAddrs, ← iovAddrs_bufReadingIov] at hvisits
  contents := by
    rw [iovAddrs_bufReadingIov]
    rfl
  peek := fun n => by
    rw [bufPeek_eq h.ne', ← buf.length_contents, ← List.take_eq_take_min]
  advance := fun n => by
    rw [contents_bufAdvanceReadPtr, ← buf.length_contents, ← List.drop_eq_drop_min]

/-- **Every state.** After any operations on a new buffer, with any results of the system calls, the
bounds hold, the offered regions are in the array, and the views of the unread bytes agree. -/
theorem views_of_run (mem : ℕ → UInt8) (capacity : ℕ+) (ops : List RawOp) :
    let buf := ops.foldl RawOp.run (bufCreate mem capacity)
    buf.capacity = capacity ∧ buf.offset < buf.capacity ∧ buf.length ≤ buf.capacity ∧
      (∀ v ∈ bufReadingIov buf ++ bufWritingIov buf, v.base + v.len ≤ buf.capacity) ∧
      (0 < buf.length → buf.ViewsAgree) := by
  intro buf
  refine ⟨capacity_foldl_run _ ops, buf.offset_lt, buf.length_le, fun v hv => ?_,
    RoundBuffer.viewsAgree⟩
  exact (List.mem_append.mp hv).elim add_le_of_mem_bufReadingIov add_le_of_mem_bufWritingIov

/-- Three bytes are read, two of them dropped, and one is read behind them. -/
theorem viewsAgree_wrapped :
    let buf := [RawOp.read (.bytes [1, 2, 3]), .advanceRead 2, .read (.bytes [4])].foldl RawOp.run
      (bufCreate (fun _ => 0) 3)
    buf.contents = [3, 4] ∧ ¬ buf.Unwrapped ∧ buf.ViewsAgree := by
  intro buf
  have hlength : 0 < buf.length := by decide
  exact ⟨by decide, by decide, (views_of_run _ _ _).2.2.2.2 hlength⟩

end OsTasks.PortForwarding
