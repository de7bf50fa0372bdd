import Mathlib.Data.List.Basic
import Mathlib.Tactic.SplitIfs

/-!
# Work that is cut off and taken up again

An agenda lists the steps that a state still asks for. Performing the first step removes it from
the list, so any number of steps leaves exactly the rest, and what the state becomes once everything
is done does not depend on where the work is cut off.

A procedure that works on an agenda in rounds of limited room emits something for every step and
tells whether it has finished. It is restartable if every round does as many steps as it has room
for: then all rounds together emit what one round without a limit emits.

## Main definitions

* `Agenda`, `Agenda.complete`: the steps left in a state, and the state once all are done.
* `rounds`: rounds until one has finished.
* `Restartable`: every round does as many steps as it has room for.

## Main results

* `Agenda.todo_foldl_take`, `Agenda.complete_foldl_take`: what a cut-off agenda leaves.
* `Restartable.finished`, `Restartable.finishes`: rounds that finish have done everything, and
  enough rounds finish.
-/

namespace OsTasks

/-! ### Agendas -/

section Agenda

variable {σ α : Type*}

/-- The steps that a state asks for, of which performing the first leaves the others. -/
structure Agenda (σ α : Type*) where
  todo : σ → List α
  perform : σ → α → σ
  Valid : σ → Prop
  valid_perform : ∀ {s : σ} {a : α} {as : List α}, Valid s → todo s = a :: as → Valid (perform s a)
  todo_perform : ∀ {s : σ} {a : α} {as : List α}, Valid s → todo s = a :: as →
    todo (perform s a) = as

namespace Agenda

variable (A : Agenda σ α)

/-- The state once everything is done. -/
def complete (s : σ) : σ := (A.todo s).foldl A.perform s

variable {A} {s : σ}

/-- After some of the first steps the others are left. -/
theorem todo_foldl_take (h : A.Valid s) (n : ℕ) :
    A.Valid (((A.todo s).take n).foldl A.perform s) ∧
      A.todo (((A.todo s).take n).foldl A.perform s) = (A.todo s).drop n := by
  induction n generalizing s with
  | zero => exact ⟨h, rfl⟩
  | succ n ih =>
    cases hs : A.todo s with
    | nil => exact ⟨h, hs⟩
    | cons a as =>
      have hnext := A.todo_perform h hs
      have := ih (A.valid_perform h hs)
      rwa [hnext] at this

/-- Where the work is cut off makes no difference in the end. -/
theorem complete_foldl_take (h : A.Valid s) (n : ℕ) :
    A.complete (((A.todo s).take n).foldl A.perform s) = A.complete s := by
  rw [complete, (todo_foldl_take h n).2, ← List.foldl_append, List.take_append_drop]
  rfl

end Agenda

end Agenda

/-! ### Rounds -/

section Rounds

variable {σ κ ε β : Type*}

/-- Rounds until one has finished: whether one has, everything emitted, and the last state. -/
def rounds (round : κ → σ → Bool × List ε × σ) : List κ → σ → Bool × List ε × σ
  | [], s => (false, [], s)
  | k :: ks, s =>
    let r := round k s
    if r.1 then r
    else
      let rest := rounds round ks r.2.2
      (rest.1, r.2.1 ++ rest.2.1, rest.2.2)

/-- A procedure that does as many steps as it has room for, where `todo s` is what the steps left in
`s` emit, and `outcome s` what comes of `s` in the end. -/
structure Restartable (round : κ → σ → Bool × List ε × σ) (room : κ → ℕ) (Valid : σ → Prop)
    (todo : σ → List ε) (outcome : σ → β) : Prop where
  valid : ∀ (k : κ) {s : σ}, Valid s → Valid (round k s).2.2
  emitted : ∀ (k : κ) {s : σ}, Valid s → (round k s).2.1 = (todo s).take (room k)
  left : ∀ (k : κ) {s : σ}, Valid s → todo (round k s).2.2 = (todo s).drop (room k)
  outcome_eq : ∀ (k : κ) {s : σ}, Valid s → outcome (round k s).2.2 = outcome s
  finished_iff : ∀ (k : κ) {s : σ}, Valid s → ((round k s).1 = true ↔ (todo s).length ≤ room k)

variable {round : κ → σ → Bool × List ε × σ} {room : κ → ℕ} {Valid : σ → Prop}
  {todo : σ → List ε} {outcome : σ → β} {s : σ}

/-- **Rounds that finish have done everything.** -/
theorem Restartable.finished (h : Restartable round room Valid todo outcome) (hs : Valid s)
    (ks : List κ) (hfin : (rounds round ks s).1 = true) :
    Valid (rounds round ks s).2.2 ∧ (rounds round ks s).2.1 = todo s ∧
      todo (rounds round ks s).2.2 = [] ∧ outcome (rounds round ks s).2.2 = outcome s := by
  induction ks generalizing s with
  | nil => exact absurd hfin Bool.false_ne_true
  | cons k ks ih =>
    rw [rounds] at hfin ⊢
    by_cases hk : (round k s).1 = true
    · have hle := (h.finished_iff k hs).mp hk
      simp only [hk, if_true]
      refine ⟨h.valid k hs, ?_, ?_, h.outcome_eq k hs⟩
      · rw [h.emitted k hs, List.take_of_length_le hle]
      · rw [h.left k hs, List.drop_eq_nil_of_le hle]
    · simp only [hk, if_false, Bool.false_eq_true] at hfin ⊢
      obtain ⟨hvalid, hemitted, hleft, houtcome⟩ := ih (h.valid k hs) hfin
      refine ⟨hvalid, ?_, hleft, houtcome.trans (h.outcome_eq k hs)⟩
      rw [hemitted, h.emitted k hs, h.left k hs, List.take_append_drop]

/-- **Enough rounds finish**, if each has some room. -/
theorem Restartable.finishes (h : Restartable round room Valid todo outcome) (hs : Valid s)
    {ks : List κ} (hroom : ∀ k ∈ ks, 0 < room k) (hlen : (todo s).length < ks.length) :
    (rounds round ks s).1 = true := by
  induction ks generalizing s with
  | nil => exact absurd hlen (Nat.not_lt_zero _)
  | cons k ks ih =>
    rw [rounds]
    by_cases hk : (round k s).1 = true
    · simp only [hk, if_true]
    · have hlt : room k < (todo s).length := by
        rw [h.finished_iff k hs, Nat.not_le] at hk
        exact hk
      have hpos := hroom k List.mem_cons_self
      simp only [hk, if_false, Bool.false_eq_true]
      refine ih (h.valid k hs) (fun k hk => hroom k (List.mem_cons_of_mem _ hk)) ?_
      rw [h.left k hs, List.length_drop]
      rw [List.length_cons] at hlen
      omega

end Rounds

end OsTasks
