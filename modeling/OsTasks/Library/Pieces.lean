import Mathlib.Data.List.Basic
import Mathlib.Tactic.SplitIfs

/-!
# Pieces of a sequence

A sequence is taken piece by piece: a piece goes up to and including the first separator, but has
at most a given number of elements. The piece is complete when one of the two has ended it;
otherwise the sequence itself has ended. A reader that gets the sequence in chunks, whatever they
are, finds the piece of a longer sequence by going on behind an incomplete one.

## Main definitions

* `Chunking`: the ways of cutting a sequence into chunks of a bounded length.
* `piece`, `Complete`: the next piece, and when it is one.

## Main results

* `piece_append_of_complete`, `piece_append`: the piece of a sequence that goes on.
* `piece_line`: the piece at the beginning of a line.
-/

namespace OsTasks

variable {α : Type*}

/-! ### Chunks -/

/-- The non-empty chunks, of at most `cap` elements, in which a sequence arrives. -/
structure Chunking (cap : ℕ) (xs : List α) where
  chunks : List (List α)
  ne_nil : ∀ chunk ∈ chunks, chunk ≠ []
  length_le : ∀ chunk ∈ chunks, chunk.length ≤ cap
  flatten_eq : chunks.flatten = xs

variable [DecidableEq α] {sep : α} {n : ℕ} {xs ys : List α}

/-! ### The next piece -/

/-- The elements up to and including the first separator, but at most `n` of them. -/
def piece (sep : α) : ℕ → List α → List α
  | 0, _ => []
  | _ + 1, [] => []
  | n + 1, x :: xs => x :: if x = sep then [] else piece sep n xs

/-- A piece that the separator or the bound `n` has ended. -/
def Complete (sep : α) (n : ℕ) (p : List α) : Prop := p.length = n ∨ p.getLast? = some sep

instance (sep : α) (n : ℕ) (p : List α) : Decidable (Complete sep n p) :=
  inferInstanceAs (Decidable (_ ∨ _))

omit [DecidableEq α] in
@[simp] theorem complete_nil_iff : Complete sep n [] ↔ n = 0 := by
  rw [Complete, List.length_nil, List.getLast?_nil]
  exact ⟨fun h => h.elim Eq.symm (by rintro ⟨⟩), fun h => .inl h.symm⟩

@[simp] theorem piece_zero (sep : α) (xs : List α) : piece sep 0 xs = [] := by
  rw [piece]

@[simp] theorem piece_nil (sep : α) (n : ℕ) : piece sep n [] = [] := by
  cases n <;> rw [piece]

theorem piece_cons_self (sep : α) (n : ℕ) (xs : List α) :
    piece sep (n + 1) (sep :: xs) = [sep] := by
  rw [piece, if_pos rfl]

theorem piece_cons_of_ne {x : α} (hx : x ≠ sep) (n : ℕ) (xs : List α) :
    piece sep (n + 1) (x :: xs) = x :: piece sep n xs := by
  rw [piece, if_neg hx]

theorem isPrefix_piece (sep : α) (n : ℕ) (xs : List α) : piece sep n xs <+: xs := by
  induction xs generalizing n with
  | nil => simp
  | cons x xs ih =>
    cases n with
    | zero => simp
    | succ n =>
      rw [piece]
      split_ifs
      · simp
      · exact List.cons_prefix_cons.mpr ⟨rfl, ih n⟩

/-- Nothing is lost behind a piece. -/
@[simp] theorem piece_append_drop (sep : α) (n : ℕ) (xs : List α) :
    piece sep n xs ++ xs.drop (piece sep n xs).length = xs :=
  List.prefix_iff_eq_append.mp (isPrefix_piece sep n xs)

theorem length_piece_le (sep : α) (n : ℕ) (xs : List α) : (piece sep n xs).length ≤ n := by
  induction xs generalizing n with
  | nil => simp
  | cons x xs ih =>
    cases n with
    | zero => simp
    | succ n =>
      rw [piece]
      split_ifs
      · simp
      · simpa using ih n

theorem piece_ne_nil (hn : 0 < n) (hxs : xs ≠ []) : piece sep n xs ≠ [] := by
  obtain ⟨x, xs, rfl⟩ := List.exists_cons_of_ne_nil hxs
  obtain ⟨n, rfl⟩ := Nat.exists_eq_add_of_lt hn
  rw [Nat.zero_add, piece]
  exact List.cons_ne_nil _ _

/-- Without a separator among the first elements, the piece has them all. -/
theorem piece_append_of_not_mem (hsep : sep ∉ xs) (hlen : xs.length ≤ n) (ys : List α) :
    piece sep n (xs ++ ys) = xs ++ piece sep (n - xs.length) ys := by
  induction xs generalizing n with
  | nil => rfl
  | cons x xs ih =>
    obtain ⟨hx, hxs⟩ := List.ne_and_not_mem_of_not_mem_cons hsep
    cases n with
    | zero => exact absurd hlen (Nat.not_succ_le_zero _)
    | succ n =>
      have hrest := ih hxs (Nat.le_of_succ_le_succ hlen)
      rw [List.cons_append, piece_cons_of_ne (Ne.symm hx), hrest, List.length_cons,
        Nat.add_sub_add_right, List.cons_append]

/-! ### A sequence that goes on -/

/-- Once a piece is complete, what follows does not matter. -/
theorem piece_append_of_complete (h : Complete sep n (piece sep n xs)) (ys : List α) :
    piece sep n (xs ++ ys) = piece sep n xs := by
  induction xs generalizing n with
  | nil =>
    rw [piece_nil, complete_nil_iff] at h
    rw [h, piece_zero, piece_zero]
  | cons x xs ih =>
    cases n with
    | zero => rw [piece_zero, piece_zero]
    | succ n =>
      by_cases hx : x = sep
      · rw [List.cons_append, hx, piece_cons_self, piece_cons_self]
      · have hrest : Complete sep n (piece sep n xs) := by
          rw [piece_cons_of_ne hx] at h
          rcases h with h | h
          · exact .inl (Nat.succ.inj h)
          · refine .inr ?_
            rw [List.getLast?_cons] at h
            cases hlast : (piece sep n xs).getLast? with
            | none => simp [hlast, hx] at h
            | some y => simpa [hlast] using h
        rw [List.cons_append, piece_cons_of_ne hx, piece_cons_of_ne hx, ih hrest]

/-- An incomplete piece is the whole sequence, and has no separator. -/
theorem piece_of_not_complete (h : ¬ Complete sep n (piece sep n xs)) :
    piece sep n xs = xs ∧ sep ∉ xs ∧ xs.length < n := by
  induction xs generalizing n with
  | nil =>
    rw [piece_nil, complete_nil_iff] at h
    exact ⟨piece_nil sep n, List.not_mem_nil, Nat.pos_of_ne_zero h⟩
  | cons x xs ih =>
    cases n with
    | zero => exact absurd (.inl (by rw [piece_zero, List.length_nil])) h
    | succ n =>
      by_cases hx : x = sep
      · exact absurd (.inr (by rw [hx, piece_cons_self]; rfl)) h
      · rw [piece_cons_of_ne hx] at h ⊢
        have hrest : ¬ Complete sep n (piece sep n xs) := by
          rintro (hlen | hlast)
          · exact h (.inl (congrArg Nat.succ hlen))
          · exact h (.inr (by rw [List.getLast?_cons, hlast]; rfl))
        obtain ⟨heq, hsep, hlen⟩ := ih hrest
        exact ⟨congrArg (x :: ·) heq, List.not_mem_cons_of_ne_of_not_mem (Ne.symm hx) hsep,
          Nat.succ_lt_succ hlen⟩

omit [DecidableEq α] in
/-- What follows elements without a separator completes the piece that begins with them. -/
theorem complete_append (hsep : sep ∉ xs) (hlen : xs.length ≤ n) :
    Complete sep n (xs ++ ys) ↔ Complete sep (n - xs.length) ys := by
  have hlength : (xs ++ ys).length = n ↔ ys.length = n - xs.length := by
    rw [List.length_append]
    omega
  have hlast : (xs ++ ys).getLast? = some sep ↔ ys.getLast? = some sep := by
    rw [List.getLast?_append]
    cases hys : ys.getLast? with
    | none => simpa using fun h => hsep (List.mem_of_getLast? h)
    | some y => rfl
  exact or_congr hlength hlast

/-- Behind an incomplete piece, the piece goes on. -/
theorem piece_append (h : ¬ Complete sep n (piece sep n xs)) (ys : List α) :
    piece sep n (xs ++ ys) = xs ++ piece sep (n - xs.length) ys := by
  obtain ⟨-, hsep, hlen⟩ := piece_of_not_complete h
  exact piece_append_of_not_mem hsep (Nat.le_of_lt hlen) ys

/-! ### Lines -/

/-- The first piece of a line: the line with its separator, if they fit. -/
theorem piece_line (hsep : sep ∉ xs) (n : ℕ) (ys : List α) :
    piece sep n (xs ++ sep :: ys) = if xs.length < n then xs ++ [sep] else xs.take n := by
  split_ifs with hlen
  · obtain ⟨k, hk⟩ := Nat.exists_eq_add_of_lt hlen
    have hrest : n - xs.length = k + 1 := by omega
    rw [piece_append_of_not_mem hsep (Nat.le_of_lt hlen), hrest, piece_cons_self]
  · have hsplit : xs ++ sep :: ys = xs.take n ++ (xs.drop n ++ sep :: ys) := by
      rw [← List.append_assoc, List.take_append_drop]
    have htake : (xs.take n).length = n := List.length_take_of_le (Nat.le_of_not_lt hlen)
    have hmem : sep ∉ xs.take n := fun h => hsep (List.mem_of_mem_take h)
    rw [hsplit, piece_append_of_not_mem hmem (Nat.le_of_eq htake), htake, Nat.sub_self, piece_zero,
      List.append_nil]

end OsTasks
