import OsTasks.File.ScanFile

/-!
# The line table of the mapping program

`scan_file` of the program `mmap` goes once through the mapped file and adds a line at each line
break. Nothing is added at the end of the file, so that a line without a line break is not in the
table. The list of lines is that of the reading program, and a line number is looked up in it in
the same way; an empty file cannot be mapped, and its table is empty.

## Main definitions

* `scanLoop`, `scanFile`: the loop of the source.
* `select`: the bytes that a line number selects.
* `SameIndex`: two tables index the same lines of a file.

## Main results

* `scanFile_endedLines`: the table lists the lines that end with a line break.
* `sameIndex_iff`: the files of which the two programs index the same lines.
-/

namespace OsTasks.Mmap

open OsTasks.File

/-! ### The scan -/

/-- The loop of `scan_file` over the bytes from the index `i` on, with the variable `curr`. -/
def scanLoop (malloc : ℕ → Bool) : List UInt8 → ℕ → Line → LineList → Bool × LineList
  | [], _, _, list => (true, list)
  | b :: bs, i, curr, list =>
    if b = newline then
      let curr := { curr with len := i - curr.offset }
      match addLine (malloc list.nodes.length) list curr with
      | none => (false, list)
      | some list => scanLoop malloc bs (i + 1) { curr with offset := i + 1 } list
    else scanLoop malloc bs (i + 1) curr list

/-- `scan_file` of a file that is mapped as a whole. -/
def scanFile (malloc : ℕ → Bool) (content : List UInt8) (list : LineList) : Bool × LineList :=
  scanLoop malloc content 0 ⟨0, 0⟩ list

variable {malloc : ℕ → Bool} {p : List UInt8} {curr : Line} {list : LineList}

/-- The variables after the bytes `p`: the table has the lines that have ended, and the open line
begins at the offset. -/
structure Scanned (p : List UInt8) (curr : Line) (list : LineList) : Prop where
  linked : list.Linked
  lines : list.lines.map Line.span = spans 0 (endedLines newline p)
  offset : curr.offset = p.length - (openLine newline p).length

/-- The rest of the file. -/
theorem scanned_scanLoop (hmalloc : ∀ n, malloc n = true) (h : Scanned p curr list)
    (bs : List UInt8) :
    ∃ table, scanLoop malloc bs p.length curr list = (true, table) ∧ table.Linked ∧
      table.lines.map Line.span = spans 0 (endedLines newline (p ++ bs)) := by
  induction bs generalizing p curr list with
  | nil => exact ⟨list, rfl, h.linked, by rw [List.append_nil, h.lines]⟩
  | cons b bs ih =>
    have hlen := linesLength_endedLines newline p
    have hoffset := h.offset
    rw [scanLoop, ← List.singleton_append, ← List.append_assoc]
    by_cases hb : b = newline
    · subst hb
      obtain ⟨list', hadd, hlinked, hlines⟩ :=
        lines_addLine h.linked ⟨curr.offset, p.length - curr.offset⟩
      have hscanned : Scanned (p ++ [newline]) ⟨p.length + 1, p.length - curr.offset⟩ list' := by
        refine ⟨hlinked, ?_, by simp⟩
        rw [hlines, List.map_append, h.lines, endedLines_concat_self, spans_splitOn]
        refine congrArg (fun span => spans 0 (endedLines newline p) ++ [span]) (Prod.ext hoffset ?_)
        change p.length - curr.offset = _
        omega
      have hrest := ih hscanned
      rw [List.length_append, List.length_singleton] at hrest
      rw [if_pos rfl, hmalloc]
      dsimp only
      rw [hadd]
      exact hrest
    · have hscanned : Scanned (p ++ [b]) curr list := by
        refine ⟨h.linked, by rw [endedLines_concat_of_ne hb, h.lines], ?_⟩
        rw [hoffset, openLine_concat_of_ne hb, List.length_append, List.length_append]
        omega
      have hrest := ih hscanned
      rw [List.length_append, List.length_singleton] at hrest
      rw [if_neg hb]
      exact hrest

/-- The table lists the lines that end with a line break. -/
theorem scanFile_endedLines (hmalloc : ∀ n, malloc n = true) (content : List UInt8) :
    ∃ table, scanFile malloc content initList = (true, table) ∧ table.Linked ∧
      table.lines.map Line.span = spans 0 (endedLines newline content) :=
  scanned_scanLoop hmalloc (p := []) ⟨linked_initList, rfl, rfl⟩ content

/-! ### Comparing the two tables -/

/-- The bytes of a file that a line number, counted from `0`, selects by a table. -/
def select (content : List UInt8) (table : LineList) (n : ℕ) : Option (List UInt8) :=
  (table.getLine n).map fun line => slice content line.span

/-- The byte `i` belongs to exactly one line of a table. -/
def InOneLine (table : LineList) (i : ℕ) : Prop :=
  ∃! n : ℕ, ∃ line, table.getLine n = some line ∧ Covers line.span i

/-- Two tables of a file index the same lines: they are equal, but for an empty line behind the
last line break, which the second one may lack; every byte but the line breaks is in exactly one
line of each; and a line number selects the same bytes by both, or only the first one has it, for
an empty line. -/
structure SameIndex (content : List UInt8) (table table' : LineList) : Prop where
  tables : table.lines = table'.lines ∨
    content.getLast? = some newline ∧ table.lines = table'.lines ++ [⟨content.length, 0⟩]
  inOneLine : ∀ i b, content[i]? = some b → b ≠ newline → InOneLine table i ∧ InOneLine table' i
  selects : ∀ n, select content table n = select content table' n ∨
    select content table n = some [] ∧ select content table' n = none

variable {content : List UInt8} {table table' : LineList}

/-- A line is determined by its span. -/
theorem lines_eq_of_spans {ls ls' : List Line} (h : ls.map Line.span = ls'.map Line.span) :
    ls = ls' := by
  refine List.map_injective_iff.mpr (fun line line' hspan => ?_) h
  obtain ⟨hoffset, hlen⟩ := Prod.mk.inj hspan
  cases line
  cases line'
  rw [Line.mk.injEq]
  exact ⟨hoffset, hlen⟩

/-- The numbers of the lines that a byte is in, by the spans of a table. -/
theorem inOneLine_iff (h : table.Linked) (i : ℕ) :
    InOneLine table i ↔
      ∃! n : ℕ, ∃ span, (table.lines.map Line.span)[n]? = some span ∧ Covers span i := by
  refine existsUnique_congr fun n => ?_
  rw [getLine_eq h, List.getElem?_map]
  constructor
  · rintro ⟨line, hline, hcovers⟩
    exact ⟨line.span, by rw [hline]; rfl, hcovers⟩
  · rintro ⟨span, hspan, hcovers⟩
    obtain ⟨line, hline, rfl⟩ := Option.map_eq_some_iff.mp hspan
    exact ⟨line, hline, hcovers⟩

/-- An empty line at the end of a table has no byte. -/
theorem inOneLine_of_concat (h : table.Linked) (h' : table'.Linked) {offset : ℕ}
    (hlines : table.lines = table'.lines ++ [⟨offset, 0⟩]) {i : ℕ} (hi : InOneLine table i) :
    InOneLine table' i := by
  obtain ⟨n, ⟨line, hline, hcovers⟩, hunique⟩ := hi
  rw [getLine_eq h, hlines] at hline
  have hn : n < table'.lines.length := by
    by_contra hge
    rw [List.getElem?_append_right (Nat.not_lt.mp hge)] at hline
    obtain rfl := List.mem_singleton.mp (List.mem_of_getElem? hline)
    exact absurd hcovers.2 (Nat.not_lt.mpr hcovers.1)
  rw [List.getElem?_append_left hn, ← getLine_eq h'] at hline
  refine ⟨n, ⟨line, hline, hcovers⟩, ?_⟩
  rintro m ⟨line', hline', hcovers'⟩
  refine hunique m ⟨line', ?_, hcovers'⟩
  rw [getLine_eq h'] at hline'
  obtain ⟨hm, -⟩ := List.getElem?_eq_some_iff.mp hline'
  rw [getLine_eq h, hlines, List.getElem?_append_left hm, hline']

/-- By a table with an empty line more, the same bytes are selected. -/
theorem select_of_concat (h : table.Linked) (h' : table'.Linked) {offset : ℕ}
    (hlines : table.lines = table'.lines ++ [⟨offset, 0⟩]) (n : ℕ) :
    select content table n = select content table' n ∨
      select content table n = some [] ∧ select content table' n = none := by
  rw [select, select, getLine_eq h, getLine_eq h', hlines]
  rcases Nat.lt_trichotomy n table'.lines.length with hn | hn | hn
  · exact .inl (by rw [List.getElem?_append_left hn])
  · refine .inr ⟨?_, by rw [hn, List.getElem?_eq_none (Nat.le_refl _)]; rfl⟩
    rw [hn, List.getElem?_concat_length]
    exact congrArg some (List.take_zero)
  · have hge : (table'.lines ++ [(⟨offset, 0⟩ : Line)]).length ≤ n := by
      rw [List.length_append, List.length_singleton]
      exact hn
    exact .inl (by rw [List.getElem?_eq_none hge, List.getElem?_eq_none (Nat.le_of_lt hn)])

/-- **The same index.** With memory for the nodes, however the first program reads the file, the
two programs index the same lines exactly if the file ends with a line break. -/
theorem sameIndex_iff (malloc malloc' : ℕ → Bool) (hmalloc : ∀ n, malloc n = true)
    (hmalloc' : ∀ n, malloc' n = true) (content : List UInt8) (d : Delivery content) :
    ∃ table table', File.scanFile malloc d.reads initList = some (true, table) ∧
      scanFile malloc' content initList = (true, table') ∧
      (SameIndex content table table' ↔ content.getLast? = some newline) := by
  obtain ⟨table, hscan, hlinked, hlines⟩ := scanFile_spans hmalloc d
  obtain ⟨table', hscan', hlinked', hlines'⟩ := scanFile_endedLines hmalloc' content
  refine ⟨table, table', hscan, hscan', fun h => ?_, fun hlast => ?_⟩
  · refine h.tables.elim (fun heq => ?_) And.left
    -- the open line is missing
    have hlen := congrArg (fun ls : List Line => (ls.map Line.span).length) heq
    simp only [hlines, hlines', spans_splitOn, List.length_append, List.length_singleton] at hlen
    omega
  · have hopen : openLine newline content = [] := (openLine_eq_nil_iff content).mpr (.inr hlast)
    have htables : table.lines = table'.lines ++ [⟨content.length, 0⟩] := by
      refine lines_eq_of_spans ?_
      rw [List.map_append, hlines, hlines', spans_splitOn, hopen]
      rfl
    refine ⟨.inr ⟨hlast, htables⟩, fun i b hget hb => ?_, select_of_concat hlinked hlinked' htables⟩
    have hone : InOneLine table i := by
      rw [inOneLine_iff hlinked, hlines]
      exact existsUnique_covers hget hb
    exact ⟨hone, inOneLine_of_concat hlinked hlinked' htables hone⟩

/-- Two lines, each with its line break. -/
def brokenLines : Delivery [97, 0x0A, 98, 0x0A] where
  chunks := [[97, 0x0A, 98, 0x0A]]
  ne_nil := by decide
  length_le := by decide
  flatten_eq := rfl

theorem sameIndex_brokenLines :
    ∃ table table', File.scanFile (fun _ => true) brokenLines.reads initList = some (true, table) ∧
      scanFile (fun _ => true) [97, 0x0A, 98, 0x0A] initList = (true, table') ∧
      SameIndex [97, 0x0A, 98, 0x0A] table table' := by
  obtain ⟨table, table', hscan, hscan', hsame⟩ := sameIndex_iff (fun _ => true) (fun _ => true)
    (fun _ => rfl) (fun _ => rfl) _ brokenLines
  exact ⟨table, table', hscan, hscan', hsame.mpr rfl⟩

/-- A line without a line break. -/
def openFile : Delivery [97] where
  chunks := [[97]]
  ne_nil := by decide
  length_le := by decide
  flatten_eq := rfl

/-- The only line of the file is not in the table of the second program. -/
theorem not_sameIndex_openFile :
    ∃ table table', File.scanFile (fun _ => true) openFile.reads initList = some (true, table) ∧
      scanFile (fun _ => true) [97] initList = (true, table') ∧
      table.lines.map Line.span = [(0, 1)] ∧ table'.lines = [] ∧ ¬ SameIndex [97] table table' := by
  refine ⟨_, _, rfl, rfl, rfl, rfl, fun h => ?_⟩
  rcases h.tables with hlines | ⟨hlast, -⟩
  · exact absurd (congrArg List.length hlines) (by decide)
  · exact absurd hlast (by decide)

end OsTasks.Mmap
