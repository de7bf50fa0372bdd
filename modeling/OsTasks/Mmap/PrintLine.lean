import OsTasks.File.PrintLine
import OsTasks.Mmap.ScanFile

/-!
# Printing a line from the mapped file

`print_line` of the mapping program writes the bytes of a line with `fwrite` and a line break behind
them. The reading program is meant to print the same, and does so for a line that it gets with its
first `read`.

## Main definitions

* `printLine`: the function of the source.

## Main results

* `printLine_iff`: the lines for which the two programs print the same.
-/

namespace OsTasks.Mmap

open OsTasks.File

/-- `print_line`: the result, and what is printed. `fwrite` writes `written` bytes or the whole
line, and `printf` tells whether the line break can be printed. -/
def printLine (written : ℕ) (printf : Bool) (content : List UInt8) (line : Line) :
    Bool × List UInt8 :=
  let str := slice content line.span
  if written < line.len then (false, str.take written)
  else if printf then (true, str ++ [newline])
  else (false, str)

variable {malloc : ℕ → Bool} {content : List UInt8} {table : LineList} {line : Line}

/-- The lines of the table are in the file. -/
theorem add_le_length_of_mem_lines (hmalloc : ∀ n, malloc n = true) (d : Delivery content)
    (hscan : File.scanFile malloc d.reads initList = some (true, table))
    (hline : line ∈ table.lines) : line.offset + line.len ≤ content.length := by
  obtain ⟨table', hscan', -, hspans⟩ := scanFile_spans hmalloc d
  obtain rfl : table = table' := (Prod.mk.inj (Option.some.inj (hscan.symm.trans hscan'))).2
  exact add_le_length_of_mem_spans (hspans ▸ List.mem_map_of_mem hline)

/-- Parts with a line break behind each are the whole with one line break if there is one part. -/
theorem flatMap_newline_iff (parts : List (List UInt8)) :
    parts.flatMap (· ++ [newline]) = parts.flatten ++ [newline] ↔ parts.length = 1 := by
  have hlength : (parts.flatMap (· ++ [newline])).length = parts.flatten.length + parts.length := by
    induction parts with
    | nil => rfl
    | cons p ps ih =>
      rw [List.flatMap_cons, List.flatten_cons, List.length_append, List.length_append, ih,
        List.length_append, List.length_singleton, List.length_cons]
      omega
  constructor
  · intro h
    have hlen := congrArg List.length h
    rw [hlength, List.length_append, List.length_singleton] at hlen
    omega
  · intro h
    obtain ⟨p, rfl⟩ := List.length_eq_one_iff.mp h
    simp

/-- **The printed line.** However a file without zero bytes is read, `print_line` of the reading
program returns for every line of its table. It prints the bytes of the line and one line break, as
the mapping program does, exactly if the line is not empty and the first `read` gets all of it. -/
theorem printLine_iff (malloc puts : ℕ → Bool) (hmalloc : ∀ n, malloc n = true)
    (hputs : ∀ n, puts n = true) (content : List UInt8) (hzero : 0 ∉ content)
    (d : Delivery content) (table : LineList)
    (hscan : File.scanFile malloc d.reads initList = some (true, table)) (line : Line)
    (hline : line ∈ table.lines) (p : Chunking (bufSize - 1) (content.drop line.offset)) (n : ℕ) :
    printLine line.len true content line = (true, slice content line.span ++ [newline]) ∧
      ∃ out, File.printLine puts (readsOf p n) line = some (true, out) ∧
        (out = slice content line.span ++ [newline] ↔
          0 < line.len ∧ ∃ chunk ∈ p.chunks.head?, line.len ≤ chunk.length) := by
  have hle := add_le_length_of_mem_lines hmalloc d hscan hline
  have hlen : line.len ≤ (content.drop line.offset).length := by
    rw [List.length_drop]
    omega
  have hflatten : (partsOf p.chunks line.len).flatten = slice content line.span := by
    rw [flatten_partsOf, p.flatten_eq]
    rfl
  refine ⟨by simp [printLine], _, printLine_eq hputs (fun h => hzero (List.mem_of_mem_drop h)) p n
    hlen, ?_⟩
  rw [← hflatten, flatMap_newline_iff, length_partsOf_eq_one_iff (by rwa [p.flatten_eq])]

/-- A file that is read at once. -/
def wholeFile : Chunking (bufSize - 1) (([97, 98, 0x0A, 99] : List UInt8).drop 0) where
  chunks := [[97, 98, 0x0A, 99]]
  ne_nil := by decide
  length_le := by decide
  flatten_eq := rfl

theorem printLine_wholeFile :
    File.printLine (fun _ => true) (readsOf wholeFile 1) ⟨0, 2⟩ = some (true, [97, 98, 0x0A]) := by
  obtain ⟨-, out, hout, hiff⟩ := printLine_iff (fun _ => true) (fun _ => true) (fun _ => rfl)
    (fun _ => rfl) [97, 98, 0x0A, 99] (by decide) twoLines _ rfl ⟨0, 2⟩ (by decide) wholeFile 1
  rw [hout, hiff.mpr ⟨by decide, _, rfl, by decide⟩]
  rfl

/-- An empty line between two others. -/
def blankLine : Delivery [97, 0x0A, 0x0A, 98] where
  chunks := [[97, 0x0A, 0x0A, 98]]
  ne_nil := by decide
  length_le := by decide
  flatten_eq := rfl

/-- The bytes from the empty line on. -/
def fromBlankLine : Chunking (bufSize - 1) (([97, 0x0A, 0x0A, 98] : List UInt8).drop 2) where
  chunks := [[0x0A, 98]]
  ne_nil := by decide
  length_le := by decide
  flatten_eq := rfl

/-- Nothing is printed of an empty line. -/
theorem printLine_blankLine :
    ∃ table, File.scanFile (fun _ => true) blankLine.reads initList = some (true, table) ∧
      (⟨2, 0⟩ : Line) ∈ table.lines ∧
      File.printLine (fun _ => true) (readsOf fromBlankLine 1) ⟨2, 0⟩ = some (true, []) ∧
      printLine 0 true [97, 0x0A, 0x0A, 98] ⟨2, 0⟩ = (true, [newline]) :=
  ⟨_, rfl, by decide, rfl, rfl⟩

end OsTasks.Mmap
