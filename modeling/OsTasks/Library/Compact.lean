import Mathlib.Data.List.Basic
import Mathlib.Data.List.Range
import Mathlib.Logic.Function.Basic

/-!
# Compaction of an array in place

A loop walks over an array with two indices: `j` looks at every entry, and the entries to keep are
copied to `i`, which moves on with each of them. As `i` never overtakes `j`, no entry is overwritten
before it has been looked at, and the array starts with the entries to keep, in their old order.

## Main definitions

* `compactLoop`: the loop.

## Main results

* `map_compactLoop`: the entries in front of the final `i`.
-/

namespace OsTasks

variable {α : Type*}

/-- The loop from `j` on, with the number of entries that are left as fuel: `i` at its end, and the
array. -/
def compactLoop (keep : α → Bool) : ℕ → ℕ → ℕ → (ℕ → α) → ℕ × (ℕ → α)
  | 0, _, i, a => (i, a)
  | n + 1, j, i, a =>
    if keep (a j) then compactLoop keep n (j + 1) (i + 1) (Function.update a i (a j))
    else compactLoop keep n (j + 1) i a

/-- The entries in front of `i` stay, and those to keep among the rest come behind them. -/
theorem map_compactLoop (keep : α → Bool) (n : ℕ) {i j : ℕ} (hij : i ≤ j) (a : ℕ → α) :
    (List.range (compactLoop keep n j i a).1).map (compactLoop keep n j i a).2 =
      (List.range i).map a ++ ((List.range' j n).map a).filter keep := by
  induction n generalizing i j a with
  | zero => exact (List.append_nil _).symm
  | succ n ih =>
    rw [compactLoop, List.range'_succ, List.map_cons]
    split_ifs with hkeep
    · have hfront : (List.range i).map (Function.update a i (a j)) = (List.range i).map a :=
        List.map_congr_left fun k hk => Function.update_of_ne (List.mem_range.mp hk).ne _ _
      have hrest : (List.range' (j + 1) n).map (Function.update a i (a j)) =
          (List.range' (j + 1) n).map a := by
        refine List.map_congr_left fun k hk => Function.update_of_ne ?_ _ _
        have := (List.mem_range'_1.mp hk).1
        omega
      rw [ih (Nat.succ_le_succ hij), hrest, List.range_succ, List.map_append, hfront,
        List.filter_cons_of_pos hkeep, List.append_assoc]
      simp
    · rw [ih (hij.trans (Nat.le_succ j)), List.filter_cons_of_neg hkeep]

end OsTasks
