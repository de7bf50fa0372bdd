import Mathlib.Tactic.SplitIfs
import OsTasks.Library.BoundedFifo
import OsTasks.Library.Ring

/-!
# The command queue

`command_queue.c` keeps the commands that wait for room in the tunnel in a circular array of fixed
capacity. A command carries, besides the two bytes of the C structure, a tag that no function of
the program reads: it says for which accepted client connection the command was queued, and serves
to state what the two endpoints of a tunnel know of each other.

## Main definitions

* `Command`, `CmdQueue`, `makeCmdQueue`, `cmdqLength`, `cmdqEnqueue`, `cmdqDequeue`.
* `CmdQueue.contents`: the queued commands, oldest first.
* `cmdqCall`, `cmdqIndex`: one call on a queue, and the cell of the array that it uses.

## Main results

* `cmdqEnqueue_eq_none_iff`, `contents_cmdqEnqueue`: a queue refuses a command exactly when it is
  full, and appends it otherwise.
* `contents_cmdqDequeue`: the oldest command leaves.
* `cmdq_fifo`: any sequence of calls is answered as by a list of at most `cap` commands.
-/

namespace OsTasks.PortForwarding

/-- The command of no effect, `CMD_NOP`. -/
def cmdNop : UInt8 := 0

/-- `struct command`. The tag is not part of the C structure. -/
@[ext]
structure Command where
  cmd : UInt8
  arg : UInt8
  tag : ℕ := 0
  deriving DecidableEq

/-- `struct cmd_queue`, with the bounds on its fields. -/
structure CmdQueue where
  cap : ℕ
  offset : ℕ
  length : ℕ
  queue : ℕ → Command
  offset_lt : offset < cap
  length_le : length ≤ cap

/-- `make_cmd_queue` over the array `mem` that `malloc` returned; the source refuses capacity
zero. -/
def makeCmdQueue (mem : ℕ → Command) (cap : ℕ+) : CmdQueue where
  cap := cap
  offset := 0
  length := 0
  queue := mem
  offset_lt := cap.pos
  length_le := empty_le cap

def cmdqLength (q : CmdQueue) : ℕ := q.length

/-- Appends a command, or fails if the queue is full. -/
def cmdqEnqueue (q : CmdQueue) (cmd : Command) : Option CmdQueue :=
  if h : q.length = q.cap then none
  else
    some
      { q with
        queue := Function.update q.queue ((q.offset + q.length) % q.cap) cmd
        length := q.length + 1
        length_le := Nat.lt_of_le_of_ne q.length_le h }

/-- Takes the oldest command, or returns `CMD_NOP` if there is none. -/
def cmdqDequeue (q : CmdQueue) : Command × CmdQueue :=
  if h : q.length = 0 then (⟨cmdNop, 0, 0⟩, q)
  else
    let offset := q.offset + 1
    (q.queue q.offset,
      { q with
        offset := if q.cap ≤ offset then offset % q.cap else offset
        length := q.length - 1
        offset_lt := by
          have := q.length_le
          split
          · exact Nat.mod_lt _ (by omega)
          · omega
        length_le := (Nat.sub_le _ _).trans q.length_le })

/-- The queued commands, oldest first. -/
def CmdQueue.contents (q : CmdQueue) : List Command :=
  (ringAddrs q.cap q.offset q.length).map q.queue

@[simp] theorem CmdQueue.length_contents (q : CmdQueue) : q.contents.length = q.length := by
  simp [CmdQueue.contents]

theorem CmdQueue.contents_eq_nil_iff (q : CmdQueue) : q.contents = [] ↔ q.length = 0 := by
  rw [← List.length_eq_zero_iff, q.length_contents]

theorem cmdqEnqueue_eq_none_iff (q : CmdQueue) (cmd : Command) :
    cmdqEnqueue q cmd = none ↔ q.length = q.cap := by
  unfold cmdqEnqueue
  split_ifs with h <;> simp [h]

/-- A command that is accepted comes behind the others. -/
theorem contents_cmdqEnqueue {q q' : CmdQueue} {cmd : Command} (h : cmdqEnqueue q cmd = some q') :
    q'.contents = q.contents ++ [cmd] := by
  unfold cmdqEnqueue at h
  split_ifs at h with hfull
  obtain rfl := Option.some.inj h
  have hlen := q.length_le
  have hnew : (q.offset + q.length) % q.cap ∉ ringAddrs q.cap q.offset q.length := by
    have hle : q.length + 1 ≤ q.cap := by omega
    have hnd : (ringAddrs q.cap q.offset (q.length + 1)).Nodup := ringAddrs_nodup hle
    rw [ringAddrs_append, List.nodup_append] at hnd
    exact fun hmem => hnd.2.2 _ hmem _ (by simp [ringAddrs_succ]) rfl
  have hold : (ringAddrs q.cap q.offset q.length).map
      (Function.update q.queue ((q.offset + q.length) % q.cap) cmd) = q.contents :=
    List.map_congr_left fun a ha => Function.update_of_ne (fun he => hnew (he.subst ha)) _ _
  simp only [CmdQueue.contents, ringAddrs_append, List.map_append, hold]
  simp [ringAddrs_succ]

theorem length_cmdqEnqueue {q q' : CmdQueue} {cmd : Command} (h : cmdqEnqueue q cmd = some q') :
    q'.length = q.length + 1 := by
  rw [← q'.length_contents, contents_cmdqEnqueue h]
  simp

theorem cap_cmdqEnqueue {q q' : CmdQueue} {cmd : Command} (h : cmdqEnqueue q cmd = some q') :
    q'.cap = q.cap := by
  unfold cmdqEnqueue at h
  split_ifs at h
  exact Option.some.inj h ▸ rfl

/-- One cell of the array is written. -/
theorem queue_cmdqEnqueue {q q' : CmdQueue} {cmd : Command} (h : cmdqEnqueue q cmd = some q') :
    q'.queue = Function.update q.queue ((q.offset + q.length) % q.cap) cmd := by
  unfold cmdqEnqueue at h
  split_ifs at h
  exact Option.some.inj h ▸ rfl

@[simp] theorem cap_cmdqDequeue (q : CmdQueue) : (cmdqDequeue q).2.cap = q.cap := by
  unfold cmdqDequeue
  split_ifs <;> rfl

@[simp] theorem queue_cmdqDequeue (q : CmdQueue) : (cmdqDequeue q).2.queue = q.queue := by
  unfold cmdqDequeue
  split_ifs <;> rfl

/-- The command that is taken is the oldest one. -/
theorem contents_cmdqDequeue {q : CmdQueue} (h : q.length ≠ 0) :
    q.contents = (cmdqDequeue q).1 :: (cmdqDequeue q).2.contents := by
  have hfirst : (cmdqDequeue q).1 = q.queue q.offset := by rw [cmdqDequeue, dif_neg h]
  have hrest : (cmdqDequeue q).2.contents =
      (ringAddrs q.cap (q.offset + 1) (q.length - 1)).map q.queue := by
    rw [cmdqDequeue, dif_neg h]
    change (ringAddrs q.cap (if q.cap ≤ q.offset + 1 then (q.offset + 1) % q.cap
      else q.offset + 1) (q.length - 1)).map q.queue = _
    split <;> simp
  have hlen : q.length = q.length - 1 + 1 := by omega
  rw [hfirst, hrest, CmdQueue.contents, hlen, ringAddrs_succ, Nat.mod_eq_of_lt q.offset_lt,
    List.map_cons, Nat.add_sub_cancel]

theorem length_cmdqDequeue (q : CmdQueue) : (cmdqDequeue q).2.length = q.length - 1 := by
  unfold cmdqDequeue
  split_ifs with h
  · exact (congrArg (· - 1) h).trans h.symm |>.symm
  · rfl

/-! ### Sequences of calls -/

/-- One call on a queue. -/
def cmdqCall (q : CmdQueue) : FifoCall Command → FifoAnswer Command × CmdQueue
  | .enqueue cmd =>
    match cmdqEnqueue q cmd with
    | none => (.stored false, q)
    | some q' => (.stored true, q')
  | .dequeue => (.taken (cmdqDequeue q).1, (cmdqDequeue q).2)

/-- The index at which a call reads or writes the array. -/
def cmdqIndex (q : CmdQueue) : FifoCall Command → Option ℕ
  | .enqueue _ => if q.length = q.cap then none else some ((q.offset + q.length) % q.cap)
  | .dequeue => if q.length = 0 then none else some q.offset

/-- Every index is inside the array. -/
theorem cmdqIndex_lt {q : CmdQueue} {call : FifoCall Command} {i : ℕ}
    (h : cmdqIndex q call = some i) : i < q.cap := by
  have hoff := q.offset_lt
  cases call with
  | enqueue cmd =>
    rw [cmdqIndex] at h
    split_ifs at h
    obtain rfl := Option.some.inj h
    exact Nat.mod_lt _ (Nat.zero_lt_of_lt hoff)
  | dequeue =>
    rw [cmdqIndex] at h
    split_ifs at h
    exact Option.some.inj h ▸ hoff

/-- A queue that stores a list, over an array whose cells from `cap` on are those of `mem`. -/
structure CmdQueue.Stores (mem : ℕ → Command) (cap : ℕ) (q : CmdQueue) (xs : List Command) :
    Prop where
  contents : q.contents = xs
  cap_eq : q.cap = cap
  beyond : ∀ i, cap ≤ i → q.queue i = mem i

variable {mem : ℕ → Command} {cap : ℕ} {q : CmdQueue} {xs : List Command}

theorem CmdQueue.Stores.length (h : q.Stores mem cap xs) : q.length = xs.length := by
  rw [← h.contents, q.length_contents]

/-- One call is answered as by the list. -/
theorem CmdQueue.Stores.step (h : q.Stores mem cap xs) (call : FifoCall Command) :
    (cmdqCall q call).1 = (fifoStep cap ⟨cmdNop, 0, 0⟩ xs call).1 ∧
      (cmdqCall q call).2.Stores mem cap (fifoStep cap ⟨cmdNop, 0, 0⟩ xs call).2 := by
  have hlen := h.length
  cases call with
  | enqueue cmd =>
    rw [cmdqCall, fifoStep, ← hlen, ← h.cap_eq]
    cases hq : cmdqEnqueue q cmd with
    | none =>
      rw [if_pos ((cmdqEnqueue_eq_none_iff q cmd).mp hq), h.cap_eq]
      exact ⟨rfl, h⟩
    | some q' =>
      have hroom : q.length ≠ q.cap := fun hfull => by
        rw [(cmdqEnqueue_eq_none_iff q cmd).mpr hfull] at hq
        exact absurd hq (by rintro ⟨⟩)
      rw [if_neg hroom, h.cap_eq]
      refine ⟨rfl, (contents_cmdqEnqueue hq).trans (by rw [h.contents]), ?_, fun i hi => ?_⟩
      · rw [← h.cap_eq]
        exact cap_cmdqEnqueue hq
      · have hne : i ≠ (q.offset + q.length) % q.cap := by
          have := Nat.mod_lt (q.offset + q.length) (Nat.zero_lt_of_lt q.offset_lt)
          have := h.cap_eq
          omega
        rw [queue_cmdqEnqueue hq, Function.update_of_ne hne]
        exact h.beyond i hi
  | dequeue =>
    by_cases hzero : q.length = 0
    · have hnil : xs = [] := List.length_eq_zero_iff.mp (hlen.symm.trans hzero)
      subst hnil
      rw [cmdqCall, fifoStep, cmdqDequeue, dif_pos hzero]
      exact ⟨rfl, h⟩
    · have hxs := contents_cmdqDequeue hzero
      rw [h.contents] at hxs
      rw [cmdqCall, hxs, fifoStep]
      refine ⟨rfl, rfl, (cap_cmdqDequeue q).trans h.cap_eq, fun i hi => ?_⟩
      exact (congrFun (queue_cmdqDequeue q) i).trans (h.beyond i hi)

/-- **The command queue is a bounded queue.** Any calls on a new queue are answered as by a list of
at most `cap` commands, where an empty list gives `CMD_NOP`; the length is that of the list, every
index is inside the array, and no cell behind the array changes. -/
theorem cmdq_fifo (mem : ℕ → Command) (cap : ℕ+) (calls : List (FifoCall Command)) :
    let run := runCalls cmdqCall (makeCmdQueue mem cap) calls
    let list := runCalls (fifoStep cap ⟨cmdNop, 0, 0⟩) [] calls
    run.1 = list.1 ∧ run.2.contents = list.2 ∧ cmdqLength run.2 = list.2.length ∧
      list.2.length ≤ cap ∧ (∀ call, ∀ i ∈ cmdqIndex run.2 call, i < cap) ∧
      ∀ i : ℕ, cap ≤ i → run.2.queue i = mem i := by
  have hstart : (makeCmdQueue mem cap).Stores mem cap [] := ⟨rfl, rfl, fun _ _ => rfl⟩
  obtain ⟨hanswers, hstores⟩ := runCalls_simulates
    (R := CmdQueue.Stores mem cap) (fun _ _ call h => h.step call) hstart calls
  refine ⟨hanswers, hstores.contents, hstores.length, length_runCalls_fifoStep_le calls, ?_,
    hstores.beyond⟩
  intro call i hi
  exact hstores.cap_eq ▸ cmdqIndex_lt hi

end OsTasks.PortForwarding
