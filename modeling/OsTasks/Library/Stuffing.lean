import Mathlib.Data.List.Basic
import Mathlib.Tactic.SplitIfs

/-!
# Stuffed sequences

A sequence over an alphabet with an end mark `fin` and an escape mark `esc` is stuffed by writing
`esc` in front of every occurrence of the two marks. The end of the sequence can then be told from
its contents: it is the first `fin` that does not follow an `esc`.

A sender with limited room stuffs a prefix only, `fit n xs`, the longest one that it finds to fit
into `n` places when it goes through `xs` from the left.

## Main definitions

* `stuff`, `fit`: stuffing, and the prefix that fits.
* `unstuff`: the contents of a sequence up to its end, and what is behind the end.
* `breaksOff`: a sequence that stops inside a stuffed element.

## Main results

* `unstuff_stuff`: unstuffing undoes stuffing, whatever follows.
* `length_stuff_fit`, `fit_eq_take`, `le_length_fit`: the prefix fits, is a prefix, and is the
  longest one that fits.
* `stuff_of_append_eq`, `stuff_of_not_breaksOff`: where a stuffed sequence can be cut.
-/

namespace OsTasks

variable {α : Type*} [DecidableEq α] (fin esc : α)

/-- `esc` is written in front of both marks. -/
def stuff : List α → List α
  | [] => []
  | x :: xs => if x = esc ∨ x = fin then esc :: x :: stuff xs else x :: stuff xs

/-- The prefix of a sequence that is stuffed into `n` places. -/
def fit : ℕ → List α → List α
  | 0, _ => []
  | _, [] => []
  | 1, x :: _ => if x = esc ∨ x = fin then [] else [x]
  | n + 2, x :: xs => x :: if x = esc ∨ x = fin then fit n xs else fit (n + 1) xs

/-- The contents of a stuffed sequence up to its end, and what follows the end. There is none if
the sequence breaks off before. -/
def unstuff : List α → Option (List α × List α)
  | [] => none
  | [x] => if x = fin then some ([], []) else none
  | x :: y :: xs =>
    if x = fin then some ([], y :: xs)
    else if x = esc then (unstuff xs).map fun r => (y :: r.1, r.2)
    else (unstuff (y :: xs)).map fun r => (x :: r.1, r.2)

/-- The sequence stops behind an escape mark, before its end. -/
def breaksOff : List α → Bool
  | [] => false
  | [x] => x = esc
  | x :: y :: xs =>
    if x = fin then false
    else if x = esc then breaksOff xs
    else breaksOff (y :: xs)

variable {fin esc}

@[simp] theorem stuff_nil : stuff fin esc [] = [] := rfl

theorem stuff_cons (x : α) (xs : List α) :
    stuff fin esc (x :: xs) = stuff fin esc [x] ++ stuff fin esc xs := by
  by_cases hx : x = esc ∨ x = fin <;> simp [stuff, hx]

theorem stuff_append (xs ys : List α) :
    stuff fin esc (xs ++ ys) = stuff fin esc xs ++ stuff fin esc ys := by
  induction xs with
  | nil => rfl
  | cons x xs ih => rw [List.cons_append, stuff_cons, ih, ← List.append_assoc, ← stuff_cons]

@[simp] theorem fit_nil (n : ℕ) : fit fin esc n [] = [] := by
  match n with
  | 0 | 1 | _ + 2 => rfl

theorem fit_cons (n : ℕ) (x : α) (xs : List α) : fit fin esc (n + 2) (x :: xs) =
    x :: if x = esc ∨ x = fin then fit fin esc n xs else fit fin esc (n + 1) xs := by
  rw [fit]

theorem length_stuff_fit (n : ℕ) (xs : List α) : (stuff fin esc (fit fin esc n xs)).length ≤ n := by
  induction n, xs using fit.induct fin esc with
  | case1 => simp [fit]
  | case2 n => simp
  | case3 x xs hx => simp [fit, hx]
  | case4 x xs hx => simp [fit, hx, stuff]
  | case5 n x xs ih ih' =>
    by_cases hx : x = esc ∨ x = fin
    · simpa [fit, hx, stuff] using ih
    · simpa [fit, hx, stuff] using ih'

/-- What is left out begins behind the prefix. -/
theorem fit_eq_take (n : ℕ) (xs : List α) :
    fit fin esc n xs = xs.take (fit fin esc n xs).length := by
  induction n, xs using fit.induct fin esc with
  | case1 => simp [fit]
  | case2 n => simp
  | case3 x xs hx => simp [fit, hx]
  | case4 x xs hx => simp [fit, hx]
  | case5 n x xs ih ih' =>
    by_cases hx : x = esc ∨ x = fin
    · rw [fit, if_pos hx, List.length_cons, List.take_succ_cons, ← ih]
    · rw [fit, if_neg hx, List.length_cons, List.take_succ_cons, ← ih']

/-- No longer prefix fits. -/
theorem le_length_fit {n m : ℕ} {xs : List α} (hm : m ≤ xs.length)
    (h : (stuff fin esc (xs.take m)).length ≤ n) : m ≤ (fit fin esc n xs).length := by
  induction n, xs using fit.induct fin esc generalizing m with
  | case1 xs =>
    cases m with
    | zero => exact Nat.zero_le _
    | succ m =>
      obtain ⟨x, xs, rfl⟩ := List.exists_cons_of_length_pos (Nat.zero_lt_of_lt hm)
      rw [List.take_succ_cons, stuff] at h
      split_ifs at h <;> exact absurd h (Nat.not_succ_le_zero _)
  | case2 n => simpa using hm
  | case3 x xs hx =>
    cases m with
    | zero => exact Nat.zero_le _
    | succ m =>
      rw [List.take_succ_cons, stuff, if_pos hx] at h
      simp at h
  | case4 x xs hx =>
    cases m with
    | zero => exact Nat.zero_le _
    | succ m =>
      rw [List.take_succ_cons, stuff, if_neg hx, List.length_cons] at h
      rw [fit, if_neg hx]
      cases m with
      | zero => exact Nat.le_refl _
      | succ m =>
        obtain ⟨y, ys, rfl⟩ := List.exists_cons_of_length_pos
          (Nat.zero_lt_of_lt (Nat.le_of_succ_le_succ hm))
        rw [List.take_succ_cons, stuff] at h
        split_ifs at h <;> simp at h
  | case5 n x xs ih ih' =>
    cases m with
    | zero => exact Nat.zero_le _
    | succ m =>
      have hm' : m ≤ xs.length := Nat.le_of_succ_le_succ hm
      by_cases hx : x = esc ∨ x = fin
      · rw [List.take_succ_cons, stuff, if_pos hx, List.length_cons, List.length_cons] at h
        rw [fit_cons, if_pos hx]
        exact Nat.succ_le_succ (ih hm' (by omega))
      · rw [List.take_succ_cons, stuff, if_neg hx, List.length_cons] at h
        rw [fit_cons, if_neg hx]
        exact Nat.succ_le_succ (ih' hm' (by omega))

/-- With enough room nothing is left out. -/
theorem fit_of_length_le {n : ℕ} {xs : List α} (h : (stuff fin esc xs).length ≤ n) :
    fit fin esc n xs = xs := by
  have hall : xs.length ≤ (fit fin esc n xs).length :=
    le_length_fit (Nat.le_refl _) (by rwa [List.take_length])
  rw [fit_eq_take, List.take_of_length_le hall]

theorem unstuff_cons_fin (xs : List α) : unstuff fin esc (fin :: xs) = some ([], xs) := by
  cases xs <;> simp [unstuff]

theorem unstuff_cons_esc (h : esc ≠ fin) (y : α) (xs : List α) :
    unstuff fin esc (esc :: y :: xs) = (unstuff fin esc xs).map fun r => (y :: r.1, r.2) := by
  simp [unstuff, h]

theorem unstuff_cons_of_ne {x : α} (hfin : x ≠ fin) (hesc : x ≠ esc) (xs : List α) :
    unstuff fin esc (x :: xs) = (unstuff fin esc xs).map fun r => (x :: r.1, r.2) := by
  cases xs <;> simp [unstuff, hfin, hesc]

/-- Something is taken off the front, up to the end of the contents. -/
theorem eq_append_of_unstuff {ys xs rest : List α} (h : unstuff fin esc ys = some (xs, rest)) :
    ∃ p ps, ys = p :: ps ++ rest := by
  induction ys using unstuff.induct fin esc generalizing xs with
  | case1 => simp [unstuff] at h
  | case2 =>
    obtain ⟨-, rfl⟩ := Prod.mk.inj (Option.some.inj ((unstuff_cons_fin []).symm.trans h))
    exact ⟨fin, [], rfl⟩
  | case3 y hy => simp [unstuff, hy] at h
  | case4 y ys =>
    obtain ⟨-, rfl⟩ := Prod.mk.inj (Option.some.inj ((unstuff_cons_fin (y :: ys)).symm.trans h))
    exact ⟨fin, [], rfl⟩
  | case5 y ys hne ih =>
    rw [unstuff_cons_esc hne] at h
    obtain ⟨r, hr, hxs⟩ := Option.map_eq_some_iff.mp h
    obtain ⟨p, ps, hys⟩ := ih (hr.trans (congrArg some (Prod.ext rfl (Prod.mk.inj hxs).2)))
    exact ⟨esc, y :: p :: ps, by rw [hys]; rfl⟩
  | case6 y z ys hfin hesc ih =>
    rw [unstuff_cons_of_ne hfin hesc] at h
    obtain ⟨r, hr, hxs⟩ := Option.map_eq_some_iff.mp h
    obtain ⟨p, ps, hys⟩ := ih (hr.trans (congrArg some (Prod.ext rfl (Prod.mk.inj hxs).2)))
    exact ⟨y, p :: ps, by rw [hys]; rfl⟩

theorem length_lt_of_unstuff {ys xs rest : List α} (h : unstuff fin esc ys = some (xs, rest)) :
    rest.length < ys.length := by
  obtain ⟨p, ps, rfl⟩ := eq_append_of_unstuff h
  simp only [List.length_append, List.length_cons]
  omega

theorem drop_of_unstuff {ys xs rest : List α} (h : unstuff fin esc ys = some (xs, rest)) :
    ys.drop (ys.length - rest.length) = rest := by
  obtain ⟨p, ps, rfl⟩ := eq_append_of_unstuff h
  rw [List.length_append, Nat.add_sub_cancel, List.drop_left]

/-- A stuffed sequence in front is unstuffed first. -/
theorem unstuff_stuff_append (h : esc ≠ fin) (xs ys : List α) :
    unstuff fin esc (stuff fin esc xs ++ ys) =
      (unstuff fin esc ys).map fun r => (xs ++ r.1, r.2) := by
  induction xs with
  | nil => simp
  | cons x xs ih =>
    by_cases hx : x = esc ∨ x = fin
    · rw [stuff, if_pos hx, List.cons_append, List.cons_append, unstuff_cons_esc h, ih,
        Option.map_map]
      rfl
    · rw [stuff, if_neg hx, List.cons_append]
      rw [not_or] at hx
      rw [unstuff_cons_of_ne hx.2 hx.1, ih, Option.map_map]
      rfl

/-- **Unstuffing undoes stuffing**, whatever follows the end. -/
theorem unstuff_stuff (h : esc ≠ fin) (xs rest : List α) :
    unstuff fin esc (stuff fin esc xs ++ fin :: rest) = some (xs, rest) := by
  rw [unstuff_stuff_append h, unstuff_cons_fin]
  simp

/-! ### Cutting a stuffed sequence -/

/-- A piece in front of the end of a stuffed sequence is stuffed itself, or it breaks off behind
the escape mark of an element. -/
theorem stuff_of_append_eq {xs front back : List α}
    (h : front ++ back = stuff fin esc xs ++ [fin]) (hback : back ≠ []) :
    (∃ ys zs, xs = ys ++ zs ∧ front = stuff fin esc ys ∧ back = stuff fin esc zs ++ [fin]) ∨
      ∃ ys y zs, xs = ys ++ y :: zs ∧ front = stuff fin esc ys ++ [esc] := by
  induction xs generalizing front with
  | nil =>
    obtain rfl : front = [] := by
      by_contra hne
      have hlen := congrArg List.length h
      have hfront := List.length_pos_of_ne_nil hne
      have hback := List.length_pos_of_ne_nil hback
      simp only [List.length_append, stuff_nil, List.length_nil, List.length_singleton] at hlen
      omega
    exact .inl ⟨[], [], rfl, rfl, h⟩
  | cons x xs ih =>
    cases front with
    | nil => exact .inl ⟨[], x :: xs, rfl, rfl, h⟩
    | cons y front =>
      by_cases hx : x = esc ∨ x = fin
      · rw [stuff, if_pos hx, List.cons_append, List.cons_append, List.cons_append] at h
        obtain ⟨rfl, h⟩ := List.cons.inj h
        cases front with
        | nil => exact .inr ⟨[], x, xs, rfl, rfl⟩
        | cons z front =>
          obtain ⟨rfl, htail⟩ := List.cons.inj h
          rcases ih htail with ⟨ys, zs, rfl, rfl, hzs⟩ | ⟨ys, y, zs, rfl, rfl⟩
          · exact .inl ⟨z :: ys, zs, rfl, by rw [stuff, if_pos hx], hzs⟩
          · exact .inr ⟨z :: ys, y, zs, rfl, by rw [stuff, if_pos hx]; rfl⟩
      · rw [stuff, if_neg hx, List.cons_append, List.cons_append] at h
        obtain ⟨rfl, htail⟩ := List.cons.inj h
        rcases ih htail with ⟨ys, zs, rfl, rfl, hzs⟩ | ⟨ys, z, zs, rfl, rfl⟩
        · exact .inl ⟨y :: ys, zs, rfl, by rw [stuff, if_neg hx], hzs⟩
        · exact .inr ⟨y :: ys, z, zs, rfl, by rw [stuff, if_neg hx]; rfl⟩

theorem breaksOff_cons_of_ne {x : α} (hfin : x ≠ fin) (hesc : x ≠ esc) (xs : List α) :
    breaksOff fin esc (x :: xs) = breaksOff fin esc xs := by
  cases xs with
  | nil => simp [breaksOff, hesc]
  | cons y xs => rw [breaksOff, if_neg hfin, if_neg hesc]

/-- A stuffed sequence in front makes no difference. -/
theorem breaksOff_stuff_append (h : esc ≠ fin) (xs ys : List α) :
    breaksOff fin esc (stuff fin esc xs ++ ys) = breaksOff fin esc ys := by
  induction xs with
  | nil => rfl
  | cons x xs ih =>
    by_cases hx : x = esc ∨ x = fin
    · rw [stuff, if_pos hx, List.cons_append, List.cons_append, breaksOff, if_neg h, if_pos rfl, ih]
    · rw [stuff, if_neg hx, List.cons_append]
      rw [not_or] at hx
      rw [breaksOff_cons_of_ne hx.2 hx.1, ih]

/-- A piece that does not break off is stuffed itself, or it reaches the end. -/
theorem stuff_of_not_breaksOff (h : esc ≠ fin) {xs front back rest : List α}
    (heq : front ++ back = stuff fin esc xs ++ fin :: rest)
    (hfront : breaksOff fin esc front = false) :
    (∃ ys zs, xs = ys ++ zs ∧ front = stuff fin esc ys ∧
        back = stuff fin esc zs ++ fin :: rest) ∨
      ∃ tail, front = stuff fin esc xs ++ fin :: tail ∧ tail ++ back = rest := by
  rw [List.append_cons] at heq
  rcases List.append_eq_append_iff.mp heq with ⟨tail, hxs, hback⟩ | ⟨tail, hfront', hrest⟩
  · by_cases hnil : tail = []
    · rw [hnil, List.append_nil] at hxs
      rw [hnil, List.nil_append] at hback
      exact .inr ⟨[], hxs.symm, hback⟩
    · rcases stuff_of_append_eq hxs.symm hnil with
        ⟨ys, zs, hys, hfront', hzs⟩ | ⟨ys, y, zs, -, hcut⟩
      · refine .inl ⟨ys, zs, hys, hfront', ?_⟩
        rw [hback, hzs, List.append_assoc]
        rfl
      · rw [hcut, breaksOff_stuff_append h] at hfront
        simp [breaksOff] at hfront
  · refine .inr ⟨tail, ?_, hrest.symm⟩
    rw [hfront', List.append_assoc]
    rfl

/-- The two ways to break off exclude each other. -/
theorem stuff_ne_stuff_append_esc (h : esc ≠ fin) (xs ys : List α) :
    stuff fin esc xs ≠ stuff fin esc ys ++ [esc] := by
  intro heq
  have hsome := unstuff_stuff h xs []
  rw [heq, List.append_assoc, unstuff_stuff_append h, List.singleton_append,
    unstuff_cons_esc h] at hsome
  simp [unstuff] at hsome

end OsTasks
