import Mathlib.Data.List.Basic
import Mathlib.Data.List.Induction
import Mathlib.Data.List.Pairwise
import Mathlib.Tactic.SplitIfs

/-!
# Lines of a sequence

A sequence is cut into lines at every occurrence of a separator. `List.splitOn` is the list of
these lines; the last one is the open line, behind the last separator. When an element is appended
to the sequence the open line grows, or it ends and an empty one is opened.

The span of a line is the index of its first element in the sequence, and its length.

## Main definitions

* `endedLines`, `openLine`: the lines that have ended, and the one that has not.
* `spans`, `slice`: where lines are, and what is there.

## Main results

* `endedLines_concat_of_ne`, `openLine_concat_of_ne`: an element that is appended.
* `spans_splitOn`: the spans of the ended lines and of the open line.
* `map_slice_spans`: the lines are read back at their spans.
* `existsUnique_covers`: every element but the separators is in one line.
* `flatMap_parts_iff`: lines that are put together from parts.
-/

namespace OsTasks

variable {α : Type*}

/-! ### Spans -/

/-- The index of the first element and the length of each line, the lines being one element apart
and the first one at index `off`. -/
def spans (off : ℕ) : List (List α) → List (ℕ × ℕ)
  | [] => []
  | l :: ls => (off, l.length) :: spans (off + l.length + 1) ls

/-- The elements of a span. -/
def slice (xs : List α) (span : ℕ × ℕ) : List α := (xs.drop span.1).take span.2

/-- The index is one of a span. -/
def Covers (span : ℕ × ℕ) (i : ℕ) : Prop := span.1 ≤ i ∧ i < span.1 + span.2

/-- The elements of some lines with a separator behind each. -/
def linesLength (ls : List (List α)) : ℕ := ls.flatten.length + ls.length

theorem spans_append (off : ℕ) (ls ls' : List (List α)) :
    spans off (ls ++ ls') = spans off ls ++ spans (off + linesLength ls) ls' := by
  induction ls generalizing off with
  | nil => rfl
  | cons l ls ih =>
    have hoff : off + l.length + 1 + linesLength ls = off + linesLength (l :: ls) := by
      rw [linesLength, linesLength, List.flatten_cons, List.length_append, List.length_cons]
      omega
    rw [List.cons_append, spans, ih, hoff, spans, List.cons_append]

@[simp] theorem length_spans (off : ℕ) (ls : List (List α)) :
    (spans off ls).length = ls.length := by
  induction ls generalizing off with
  | nil => rfl
  | cons l ls ih => rw [spans, List.length_cons, List.length_cons, ih]

/-- What is in front of the second line: the first one and its separator. -/
theorem append_intercalate_cons_cons (sep : α) (ys l l' : List α) (ls : List (List α)) :
    ys ++ [sep].intercalate (l :: l' :: ls) =
      (ys ++ (l ++ [sep])) ++ [sep].intercalate (l' :: ls) := by
  rw [List.intercalate_cons_cons]
  simp

theorem length_append_line (sep : α) (ys l : List α) :
    ys.length + l.length + 1 = (ys ++ (l ++ [sep])).length := by
  simp [Nat.add_assoc]

/-- The lines are read back, whatever is in front of the first one. -/
theorem map_slice_spans_append (sep : α) (ys : List α) (ls : List (List α)) :
    (spans ys.length ls).map (slice (ys ++ [sep].intercalate ls)) = ls := by
  induction ls generalizing ys with
  | nil => rfl
  | cons l ls ih =>
    cases ls with
    | nil => simp [spans, slice]
    | cons l' ls =>
      rw [spans, List.map_cons, append_intercalate_cons_cons, length_append_line sep, ih]
      simp [slice]

theorem le_of_mem_spans {off : ℕ} {ls : List (List α)} {span : ℕ × ℕ} (h : span ∈ spans off ls) :
    off ≤ span.1 := by
  induction ls generalizing off with
  | nil => exact absurd h List.not_mem_nil
  | cons l ls ih =>
    rcases List.mem_cons.mp h with rfl | h
    · exact Nat.le_refl _
    · have := ih h
      omega

/-- A line ends in front of its separator. -/
theorem add_lt_of_mem_spans {off : ℕ} {ls : List (List α)} {span : ℕ × ℕ}
    (h : span ∈ spans off ls) : span.1 + span.2 < off + linesLength ls := by
  induction ls generalizing off with
  | nil => exact absurd h List.not_mem_nil
  | cons l ls ih =>
    have hlength : linesLength (l :: ls) = l.length + 1 + linesLength ls := by
      rw [linesLength, linesLength, List.flatten_cons, List.length_append, List.length_cons]
      omega
    rcases List.mem_cons.mp h with rfl | h
    · dsimp only
      omega
    · have := ih h
      omega

/-- Each line ends before the next one begins. -/
theorem pairwise_spans (off : ℕ) (ls : List (List α)) :
    (spans off ls).Pairwise fun s t => s.1 + s.2 < t.1 := by
  induction ls generalizing off with
  | nil => exact .nil
  | cons l ls ih =>
    refine List.pairwise_cons.mpr ⟨fun t ht => ?_, ih _⟩
    exact le_of_mem_spans ht

/-- An element that is no separator is in a line, whatever is in front of the first one. -/
theorem exists_covers_append {sep : α} {ys : List α} {ls : List (List α)} {i : ℕ} {x : α}
    (hi : ys.length ≤ i) (hget : (ys ++ [sep].intercalate ls)[i]? = some x) (hx : x ≠ sep) :
    ∃ span ∈ spans ys.length ls, Covers span i := by
  induction ls generalizing ys with
  | nil =>
    rw [List.intercalate_nil, List.append_nil, List.getElem?_eq_none hi] at hget
    exact absurd hget (by rintro ⟨⟩)
  | cons l ls ih =>
    by_cases hline : i < ys.length + l.length
    · exact ⟨_, List.mem_cons_self, hi, hline⟩
    cases ls with
    | nil =>
      rw [List.intercalate_singleton, List.getElem?_eq_none (by simpa using hline)] at hget
      exact absurd hget (by rintro ⟨⟩)
    | cons l' ls =>
      have hoff := length_append_line sep ys l
      rw [append_intercalate_cons_cons] at hget
      by_cases hsep : i = ys.length + l.length
      · -- the separator behind the line
        refine absurd ?_ hx
        rw [hsep, List.getElem?_append_left (by simp), List.getElem?_append_right (by omega),
          Nat.add_sub_cancel_left, List.getElem?_concat_length] at hget
        exact (Option.some.inj hget).symm
      · obtain ⟨span, hspan, hcovers⟩ := ih (by rw [← hoff]; omega) hget
        exact ⟨span, List.mem_cons_of_mem _ (hoff ▸ hspan), hcovers⟩

/-- Spans that end before the next one begins cover no index twice. -/
theorem eq_of_covers {ss : List (ℕ × ℕ)} (h : ss.Pairwise fun s t => s.1 + s.2 < t.1) {i j k : ℕ}
    {s t : ℕ × ℕ} (hs : ss[j]? = some s) (ht : ss[k]? = some t) (hsi : Covers s i)
    (hti : Covers t i) : j = k := by
  obtain ⟨hj, rfl⟩ := List.getElem?_eq_some_iff.mp hs
  obtain ⟨hk, rfl⟩ := List.getElem?_eq_some_iff.mp ht
  have hlt := List.pairwise_iff_getElem.mp h
  unfold Covers at hsi hti
  rcases Nat.lt_trichotomy j k with hjk | hjk | hjk
  · have := hlt j k hj hk hjk
    omega
  · exact hjk
  · have := hlt k j hk hj hjk
    omega

variable [DecidableEq α] (sep : α)

/-! ### Ended and open lines -/

/-- The lines in front of the last separator. -/
def endedLines (xs : List α) : List (List α) := (xs.splitOn sep).dropLast

/-- The line behind the last separator. -/
def openLine (xs : List α) : List α := (xs.splitOn sep).getLast (List.splitOn_ne_nil sep xs)

variable {sep} {xs : List α} {x : α}

theorem splitOn_eq (xs : List α) : xs.splitOn sep = endedLines sep xs ++ [openLine sep xs] :=
  (List.dropLast_append_getLast _).symm

@[simp] theorem endedLines_nil : endedLines sep ([] : List α) = [] := rfl

@[simp] theorem openLine_nil : openLine sep ([] : List α) = [] := rfl

/-- A list of lines whose last one is known. -/
theorem endedLines_openLine_of_splitOn {ls : List (List α)} {l : List α}
    (h : xs.splitOn sep = ls ++ [l]) : endedLines sep xs = ls ∧ openLine sep xs = l := by
  rw [splitOn_eq] at h
  exact List.append_singleton_inj.mp h

@[simp] theorem splitOn_concat_self (xs : List α) :
    (xs ++ [sep]).splitOn sep = xs.splitOn sep ++ [[]] :=
  List.splitOn_append_cons_self xs []

theorem splitOn_concat_of_ne (hx : x ≠ sep) (xs : List α) :
    (xs ++ [x]).splitOn sep = endedLines sep xs ++ [openLine sep xs ++ [x]] := by
  induction xs with
  | nil => simp [List.splitOn_cons_eq_if_modifyHead, hx]
  | cons y ys ih =>
    by_cases hy : y = sep
    · have hys : (y :: ys).splitOn sep = ([] :: endedLines sep ys) ++ [openLine sep ys] := by
        rw [List.splitOn_cons_eq_if_modifyHead, if_pos (by simpa using hy), splitOn_eq ys]
        rfl
      obtain ⟨hended, hopen⟩ := endedLines_openLine_of_splitOn hys
      rw [hended, hopen, List.cons_append, List.splitOn_cons_eq_if_modifyHead,
        if_pos (by simpa using hy), ih]
      rfl
    · rw [List.cons_append, List.splitOn_cons_eq_if_modifyHead, if_neg (by simpa using hy), ih]
      cases hended : endedLines sep ys with
      | nil =>
        have hys : (y :: ys).splitOn sep = [] ++ [y :: openLine sep ys] := by
          rw [List.splitOn_cons_eq_if_modifyHead, if_neg (by simpa using hy), splitOn_eq ys, hended]
          rfl
        obtain ⟨hended', hopen⟩ := endedLines_openLine_of_splitOn hys
        rw [hended', hopen]
        rfl
      | cons l ls =>
        have hys : (y :: ys).splitOn sep = ((y :: l) :: ls) ++ [openLine sep ys] := by
          rw [List.splitOn_cons_eq_if_modifyHead, if_neg (by simpa using hy), splitOn_eq ys, hended]
          rfl
        obtain ⟨hended', hopen⟩ := endedLines_openLine_of_splitOn hys
        rw [hended', hopen]
        rfl

@[simp] theorem endedLines_concat_self (xs : List α) :
    endedLines sep (xs ++ [sep]) = xs.splitOn sep :=
  (endedLines_openLine_of_splitOn (splitOn_concat_self xs)).1

@[simp] theorem openLine_concat_self (xs : List α) : openLine sep (xs ++ [sep]) = [] :=
  (endedLines_openLine_of_splitOn (splitOn_concat_self xs)).2

theorem endedLines_concat_of_ne (hx : x ≠ sep) (xs : List α) :
    endedLines sep (xs ++ [x]) = endedLines sep xs :=
  (endedLines_openLine_of_splitOn (splitOn_concat_of_ne hx xs)).1

theorem openLine_concat_of_ne (hx : x ≠ sep) (xs : List α) :
    openLine sep (xs ++ [x]) = openLine sep xs ++ [x] :=
  (endedLines_openLine_of_splitOn (splitOn_concat_of_ne hx xs)).2

/-- There is no separator in a line. -/
theorem not_mem_of_mem_splitOn {l : List α} (h : l ∈ xs.splitOn sep) : sep ∉ l := by
  induction xs using List.reverseRecOn generalizing l with
  | nil =>
    obtain rfl := List.mem_singleton.mp h
    exact List.not_mem_nil
  | append_singleton xs x ih =>
    by_cases hx : x = sep
    · subst hx
      rw [splitOn_concat_self] at h
      rcases List.mem_append.mp h with h | h
      · exact ih h
      · obtain rfl := List.mem_singleton.mp h
        exact List.not_mem_nil
    · rw [splitOn_eq xs] at ih
      rw [splitOn_concat_of_ne hx] at h
      rcases List.mem_append.mp h with h | h
      · exact ih (List.mem_append_left _ h)
      · obtain rfl := List.mem_singleton.mp h
        have hopen : sep ∉ openLine sep xs := ih (List.mem_append_right _ List.mem_cons_self)
        rw [List.mem_append, List.mem_singleton, not_or]
        exact ⟨hopen, Ne.symm hx⟩

/-- The open line is empty exactly in front of the first element of a line. -/
theorem openLine_eq_nil_iff (xs : List α) :
    openLine sep xs = [] ↔ xs = [] ∨ xs.getLast? = some sep := by
  induction xs using List.reverseRecOn with
  | nil => simp
  | append_singleton xs x _ =>
    rw [List.getLast?_concat, Option.some_inj]
    by_cases hx : x = sep
    · simp [hx]
    · simp [openLine_concat_of_ne hx, hx]

/-! ### The spans of a sequence -/

/-- The open line is what is left of the sequence. -/
theorem linesLength_endedLines (sep : α) (xs : List α) :
    linesLength (endedLines sep xs) + (openLine sep xs).length = xs.length := by
  induction xs using List.reverseRecOn with
  | nil => rfl
  | append_singleton xs x ih =>
    rw [List.length_append, ← ih]
    by_cases hx : x = sep
    · subst hx
      rw [endedLines_concat_self, openLine_concat_self, splitOn_eq, linesLength, linesLength,
        List.flatten_concat]
      simp only [List.length_append, List.length_singleton, List.length_nil]
      omega
    · rw [endedLines_concat_of_ne hx, openLine_concat_of_ne hx, List.length_append, Nat.add_assoc]

/-- The spans of a sequence: those of its ended lines, and the one of its open line. -/
theorem spans_splitOn (sep : α) (xs : List α) :
    spans 0 (xs.splitOn sep) = spans 0 (endedLines sep xs) ++
      [(xs.length - (openLine sep xs).length, (openLine sep xs).length)] := by
  have hlen := linesLength_endedLines sep xs
  rw [splitOn_eq, spans_append, Nat.zero_add, ← hlen, Nat.add_sub_cancel]
  rfl

/-- The spans of a sequence are in it. -/
theorem add_le_length_of_mem_spans {span : ℕ × ℕ} (h : span ∈ spans 0 (xs.splitOn sep)) :
    span.1 + span.2 ≤ xs.length := by
  have hlen := linesLength_endedLines sep xs
  rw [spans_splitOn] at h
  rcases List.mem_append.mp h with h | h
  · have := add_lt_of_mem_spans h
    omega
  · obtain rfl := List.mem_singleton.mp h
    dsimp only
    omega

/-- **The lines of a sequence are at their spans.** -/
theorem map_slice_spans (sep : α) (xs : List α) :
    (spans 0 (xs.splitOn sep)).map (slice xs) = xs.splitOn sep := by
  have h := map_slice_spans_append sep [] (xs.splitOn sep)
  rwa [List.nil_append, List.intercalate_splitOn, List.length_nil] at h

/-- The ended lines are at theirs. -/
theorem map_slice_spans_endedLines (sep : α) (xs : List α) :
    (spans 0 (endedLines sep xs)).map (slice xs) = endedLines sep xs := by
  have h := map_slice_spans sep xs
  rw [spans_splitOn, List.map_append, splitOn_eq] at h
  exact (List.append_inj' h rfl).1

/-- **Every element that is no separator is in exactly one line.** -/
theorem existsUnique_covers {xs : List α} {i : ℕ} {x : α} (hget : xs[i]? = some x) (hx : x ≠ sep) :
    ∃! k : ℕ, ∃ span, (spans 0 (xs.splitOn sep))[k]? = some span ∧ Covers span i := by
  have hget' : ([] ++ [sep].intercalate (xs.splitOn sep))[i]? = some x := by
    rwa [List.nil_append, List.intercalate_splitOn]
  obtain ⟨span, hspan, hcovers⟩ := exists_covers_append (Nat.zero_le i) hget' hx
  obtain ⟨k, hk⟩ := List.getElem?_of_mem hspan
  refine ⟨k, ⟨span, hk, hcovers⟩, ?_⟩
  rintro j ⟨span', hj, hcovers'⟩
  exact eq_of_covers (pairwise_spans 0 _) hj hk hcovers' hcovers

/-! ### Lines in parts -/

section Parts

variable {α : Type*} {sep : α}

/-- Parts without a separator, each with one behind it, do not begin with one. -/
theorem head?_flatMap_concat_ne {parts : List (List α)} (hne : ∀ p ∈ parts, p ≠ [])
    (hsep : ∀ p ∈ parts, sep ∉ p) (xs : List α) :
    parts.flatMap (· ++ [sep]) ≠ sep :: xs := by
  cases parts with
  | nil => exact (List.cons_ne_nil _ _).symm
  | cons p ps =>
    obtain ⟨x, p, rfl⟩ := List.exists_cons_of_ne_nil (hne p List.mem_cons_self)
    have hx := hsep _ List.mem_cons_self
    rw [List.flatMap_cons, List.cons_append, List.cons_append]
    intro h
    exact hx ((List.cons.inj h).1 ▸ List.mem_cons_self)

/-- **Lines in parts.** When the parts of some lines, and those of one more, have a separator behind
each part, they are the lines with a separator behind each line exactly if every line is in one
part and the one more is empty. -/
theorem flatMap_parts_iff {pss : List (List (List α))} {parts : List (List α)}
    (hne : ∀ ps ∈ pss, ∀ p ∈ ps, p ≠ []) (hsep : ∀ ps ∈ pss, ∀ p ∈ ps, sep ∉ p)
    (hne' : ∀ p ∈ parts, p ≠ []) (hsep' : ∀ p ∈ parts, sep ∉ p) :
    (pss.flatten ++ parts).flatMap (· ++ [sep]) = pss.flatMap (fun ps => ps.flatten ++ [sep]) ↔
      (∀ ps ∈ pss, ps.length = 1) ∧ parts = [] := by
  induction pss with
  | nil =>
    rw [List.flatten_nil, List.nil_append, List.flatMap_nil]
    constructor
    · intro h
      refine ⟨fun ps hps => absurd hps List.not_mem_nil, ?_⟩
      cases parts with
      | nil => rfl
      | cons p ps => simp at h
    · rintro ⟨-, rfl⟩
      rfl
  | cons ps pss ih =>
    obtain ⟨hneps, hnepss⟩ := List.forall_mem_cons.mp hne
    obtain ⟨hsepps, hseppss⟩ := List.forall_mem_cons.mp hsep
    have hrest := ih hnepss hseppss
    have hall : ∀ p ∈ pss.flatten ++ parts, p ≠ [] ∧ sep ∉ p := fun p hp => by
      rcases List.mem_append.mp hp with hp | hp
      · obtain ⟨ps', hps', hp⟩ := List.mem_flatten.mp hp
        exact ⟨hnepss ps' hps' p hp, hseppss ps' hps' p hp⟩
      · exact ⟨hne' p hp, hsep' p hp⟩
    rw [List.flatten_cons, List.append_assoc, List.flatMap_append, List.flatMap_cons,
      List.forall_mem_cons]
    match ps with
    | [] =>
      -- the separator of the line is missing
      refine iff_of_false (fun h => ?_) fun h => absurd h.1.1 (by simp)
      exact head?_flatMap_concat_ne (fun p hp => (hall p hp).1) (fun p hp => (hall p hp).2) _ h
    | [p] => simp [List.append_cancel_left_eq, ← hrest]
    | p :: q :: ps =>
      -- there is one in front of the second part
      refine iff_of_false (fun h => ?_) fun h => by simp at h
      obtain ⟨x, q, rfl⟩ := List.exists_cons_of_ne_nil (hneps q (by simp))
      have hx := hsepps (x :: q) (by simp)
      simp only [List.flatMap_cons, List.flatten_cons, List.append_assoc, List.cons_append,
        List.nil_append, List.append_cancel_left_eq] at h
      exact hx ((List.cons.inj h).1 ▸ List.mem_cons_self)

end Parts

end OsTasks
