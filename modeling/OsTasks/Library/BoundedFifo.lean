import Mathlib.Data.List.Basic
import Mathlib.Tactic.SplitIfs

/-!
# Bounded queues

A component that answers calls one after the other is a function from a state and a call to an
answer and the next state; `runCalls` is its answers to a list of calls. Two components answer
alike if a relation between their states is kept by every call.

The queue of at most `cap` elements is the component whose state is a list: a new element comes
behind the others if there is room, and the first one is taken.

## Main definitions

* `runCalls`: the answers to a list of calls, and the last state.
* `FifoCall`, `FifoAnswer`, `fifoStep`: the bounded queue.

## Main results

* `runCalls_simulates`: related states answer alike.
* `length_runCalls_fifoStep_le`: the queue stays within its bound.
-/

namespace OsTasks

/-! ### Calls one after the other -/

section Calls

variable {σ τ ι ο : Type*}

/-- The answers to a list of calls, and the state after them. -/
def runCalls (step : σ → ι → ο × σ) : σ → List ι → List ο × σ
  | s, [] => ([], s)
  | s, i :: is =>
    let r := step s i
    let rest := runCalls step r.2 is
    (r.1 :: rest.1, rest.2)

variable {step : σ → ι → ο × σ} {step' : τ → ι → ο × τ}

@[simp] theorem runCalls_nil (s : σ) : runCalls step s [] = ([], s) := rfl

@[simp] theorem runCalls_cons (s : σ) (i : ι) (is : List ι) :
    runCalls step s (i :: is) = ((step s i).1 :: (runCalls step (step s i).2 is).1,
      (runCalls step (step s i).2 is).2) := rfl

/-- A relation between the states of two components that every call keeps, with equal answers. -/
theorem runCalls_simulates {R : σ → τ → Prop}
    (hstep : ∀ s t i, R s t → (step s i).1 = (step' t i).1 ∧ R (step s i).2 (step' t i).2)
    {s : σ} {t : τ} (h : R s t) (is : List ι) :
    (runCalls step s is).1 = (runCalls step' t is).1 ∧
      R (runCalls step s is).2 (runCalls step' t is).2 := by
  induction is generalizing s t with
  | nil => exact ⟨rfl, h⟩
  | cons i is ih =>
    obtain ⟨hanswer, hnext⟩ := hstep s t i h
    obtain ⟨hanswers, hlast⟩ := ih hnext
    simp only [runCalls_cons]
    exact ⟨by rw [hanswer, hanswers], hlast⟩

/-- A property of the state that every call keeps. -/
theorem runCalls_invariant {P : σ → Prop} (hstep : ∀ s i, P s → P (step s i).2) {s : σ} (h : P s)
    (is : List ι) : P (runCalls step s is).2 := by
  induction is generalizing s with
  | nil => exact h
  | cons i is ih => exact ih (hstep s i h)

end Calls

/-! ### The bounded queue -/

variable {α : Type*}

inductive FifoCall (α : Type*)
  | enqueue (x : α)
  | dequeue

inductive FifoAnswer (α : Type*)
  | stored (accepted : Bool)
  | taken (x : α)
  deriving DecidableEq

/-- A call on a queue of at most `cap` elements. An empty queue gives `absent`. -/
def fifoStep (cap : ℕ) (absent : α) (xs : List α) : FifoCall α → FifoAnswer α × List α
  | .enqueue x => if xs.length = cap then (.stored false, xs) else (.stored true, xs ++ [x])
  | .dequeue =>
    match xs with
    | [] => (.taken absent, [])
    | x :: xs => (.taken x, xs)

theorem length_fifoStep_le {cap : ℕ} {absent : α} {xs : List α} (h : xs.length ≤ cap)
    (call : FifoCall α) : (fifoStep cap absent xs call).2.length ≤ cap := by
  cases call with
  | enqueue x =>
    rw [fifoStep]
    split_ifs with hfull
    · exact h
    · rw [List.length_append, List.length_singleton]
      exact Nat.lt_of_le_of_ne h hfull
  | dequeue =>
    cases xs with
    | nil => exact h
    | cons x xs => exact Nat.le_of_succ_le h

theorem length_runCalls_fifoStep_le {cap : ℕ} {absent : α} (calls : List (FifoCall α)) :
    (runCalls (fifoStep cap absent) [] calls).2.length ≤ cap :=
  runCalls_invariant (P := fun xs : List α => xs.length ≤ cap)
    (fun _ call h => length_fifoStep_le h call) (s := []) (Nat.zero_le cap) calls

end OsTasks
