import OsTasks.File.ReadLine

/-!
# Printing a line

`print_line` of the reading program copies a line from the file to the standard output. It reads at
most `BUF_SIZE - 1` bytes at a time, so that a zero byte can be put behind them, and prints what it
has read of the line with `puts`, which adds a line break to every string.

## Main definitions

* `printLoop`, `printLine`: the loop of the source.
* `partsOf`: the parts of a line that are printed one by one.

## Main results

* `printLine_eq`: a line break is printed behind each part.
* `length_partsOf_eq_one_iff`: when there is one part only.
-/

namespace OsTasks.File

/-- The loop of `print_line`, when `read` answers as listed: the result, and what is printed. There
is none as long as the loop goes on; `puts n` tells whether the call of `puts` with the number `n`
succeeds. -/
def printLoop (puts : ℕ → Bool) : List FileRead → ℕ → ℕ → Option (Bool × List UInt8)
  | _, _, 0 => some (true, [])
  | [], _, _ + 1 => none
  | .failed :: _, _, _ + 1 => some (false, [])
  | .bytes bs :: reads, n, countLeft + 1 =>
    let cnt := if bs.length < countLeft + 1 then bs.length else countLeft + 1
    if puts n then
      (printLoop puts reads (n + 1) (countLeft + 1 - cnt)).map fun r =>
        (r.1, cString (bs.take cnt ++ [0]) ++ newline :: r.2)
    else some (false, [])

/-- `print_line`, when `read` answers as listed after the call of `lseek`. -/
def printLine (puts : ℕ → Bool) (reads : List FileRead) (line : Line) :
    Option (Bool × List UInt8) :=
  printLoop puts reads 0 line.len

/-- The answers of `read` to these chunks, and to `n` calls at the end of the file. -/
def readsOf {cap : ℕ} {bs : List UInt8} (d : Chunking cap bs) (n : ℕ) : List FileRead :=
  d.chunks.map FileRead.bytes ++ List.replicate n (.bytes [])

/-! ### The parts of a line -/

/-- The parts of a line of `len` bytes, one in each chunk. -/
def partsOf : List (List UInt8) → ℕ → List (List UInt8)
  | [], _ => []
  | _ :: _, 0 => []
  | chunk :: chunks, len + 1 => chunk.take (len + 1) :: partsOf chunks (len + 1 - chunk.length)

variable {chunks : List (List UInt8)} {len n : ℕ} {puts : ℕ → Bool}

@[simp] theorem partsOf_zero (chunks : List (List UInt8)) : partsOf chunks 0 = [] := by
  cases chunks <;> rfl

theorem flatten_partsOf (chunks : List (List UInt8)) (len : ℕ) :
    (partsOf chunks len).flatten = chunks.flatten.take len := by
  induction chunks generalizing len with
  | nil => simp [partsOf]
  | cons chunk chunks ih =>
    cases len with
    | zero => simp
    | succ len => rw [partsOf, List.flatten_cons, List.flatten_cons, List.take_append, ih]

/-- A part is printed as it is, with a line break. -/
theorem printLoop_eq (hputs : ∀ n, puts n = true) (hzero : 0 ∉ chunks.flatten)
    (hlen : len ≤ chunks.flatten.length) (rest : List FileRead) :
    printLoop puts (chunks.map FileRead.bytes ++ rest) n len =
      some (true, (partsOf chunks len).flatMap (· ++ [newline])) := by
  induction chunks generalizing n len with
  | nil =>
    obtain rfl := Nat.le_zero.mp hlen
    rw [partsOf_zero, printLoop]
    rfl
  | cons chunk chunks ih =>
    cases len with
    | zero =>
      rw [partsOf_zero, printLoop]
      rfl
    | succ len =>
      rw [List.flatten_cons, List.mem_append, not_or] at hzero
      rw [List.flatten_cons, List.length_append] at hlen
      have hcnt : (if chunk.length < len + 1 then chunk.length else len + 1) =
          min chunk.length (len + 1) := by
        split <;> omega
      have htake : chunk.take (min chunk.length (len + 1)) = chunk.take (len + 1) := by
        rw [← List.take_take, List.take_of_length_le]
        rw [List.length_take]
        exact Nat.min_le_right _ _
      have hrest : len + 1 - min chunk.length (len + 1) = len + 1 - chunk.length := by omega
      have hpart : 0 ∉ chunk.take (len + 1) := fun h => hzero.1 (List.mem_of_mem_take h)
      rw [List.map_cons, List.cons_append, printLoop, if_pos (hputs n), hcnt, htake, hrest,
        ih hzero.2 (by omega), cString_of_not_mem hpart, partsOf, List.flatMap_cons]
      simp

/-- What `print_line` prints of a line of the file. -/
theorem printLine_eq (hputs : ∀ n, puts n = true) {bs : List UInt8} (hzero : 0 ∉ bs) {cap : ℕ}
    (d : Chunking cap bs) (n : ℕ) {line : Line} (hlen : line.len ≤ bs.length) :
    printLine puts (readsOf d n) line =
      some (true, (partsOf d.chunks line.len).flatMap (· ++ [newline])) := by
  rw [← d.flatten_eq] at hzero hlen
  exact printLoop_eq hputs hzero hlen _

theorem ne_nil_of_mem_partsOf (hne : ∀ chunk ∈ chunks, chunk ≠ []) {part : List UInt8}
    (h : part ∈ partsOf chunks len) : part ≠ [] := by
  induction chunks generalizing len with
  | nil => exact absurd h List.not_mem_nil
  | cons chunk chunks ih =>
    obtain ⟨hchunk, hchunks⟩ := List.forall_mem_cons.mp hne
    cases len with
    | zero => exact absurd h List.not_mem_nil
    | succ len =>
      rcases List.mem_cons.mp h with rfl | h
      · obtain ⟨b, bs, rfl⟩ := List.exists_cons_of_ne_nil hchunk
        exact List.cons_ne_nil _ _
      · exact ih hchunks h

theorem partsOf_eq_nil_iff (hlen : len ≤ chunks.flatten.length) :
    partsOf chunks len = [] ↔ len = 0 := by
  cases chunks with
  | nil => exact iff_of_true rfl (Nat.le_zero.mp hlen)
  | cons chunk chunks => cases len <;> simp [partsOf]

/-- There is one part if the line is not empty and the first chunk has all of it. -/
theorem length_partsOf_eq_one_iff (hlen : len ≤ chunks.flatten.length) :
    (partsOf chunks len).length = 1 ↔ 0 < len ∧ ∃ chunk ∈ chunks.head?, len ≤ chunk.length := by
  cases chunks with
  | nil => simp [partsOf]
  | cons chunk chunks =>
    cases len with
    | zero => simp
    | succ len =>
      rw [List.flatten_cons, List.length_append] at hlen
      have hrest :=
        partsOf_eq_nil_iff (show len + 1 - chunk.length ≤ chunks.flatten.length by omega)
      rw [partsOf, List.length_cons, Nat.succ_inj, List.length_eq_zero_iff, hrest]
      simp [Nat.sub_eq_zero_iff_le]

end OsTasks.File
