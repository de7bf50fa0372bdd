import OsTasks.File.LineList
import OsTasks.Library.Lines

/-!
# The line table of the reading program

`scan_file` of the program `File` reads a file in chunks and builds the table of its lines. The
offset of a line is the position before the chunk in which the line begins, plus an index in the
chunk; a flag says that the next byte begins a line. At the end of the file a line break is
simulated, so that the line behind the last line break enters the table as well.

## Main definitions

* `Scan`, `scanByte`, `scanBytes`, `scanFile`: the loops of the source.
* `Delivery`: the chunks in which a file is read.
* `Scanned`: the state of the scan after a part of the file.

## Main results

* `scanned_scanByte`, `scanned_scanBytes`: what one byte and one chunk do to the state.
* `scanFile_spans`, `scanFile_lines`: the table lists the lines of the file, however it is read.
-/

namespace OsTasks.File

/-- `'\\n'`. -/
def newline : UInt8 := 0x0A

/-- `BUF_SIZE`. -/
def bufSize : ℕ := 1024

/-! ### The scan -/

/-- What `read` does: it fails, or delivers some bytes, none at the end of the file. -/
inductive FileRead
  | failed
  | bytes (bs : List UInt8)

/-- The variables of `scan_file` that outlive a chunk, and the table. -/
structure Scan where
  curr : Line
  newLine : Bool
  list : LineList

/-- The first byte of a line sets the offset. -/
def beginLine (pos : ℕ) (st : Scan) : Scan :=
  if st.newLine then { st with curr := { st.curr with offset := pos }, newLine := false } else st

/-- The body of the loop over a chunk, for the byte `b` at the position `pos` of the file. The
result is `false` when there is no memory for a line; `malloc n` tells whether there is memory for
the node with the number `n`. -/
def scanByte (malloc : ℕ → Bool) (pos : ℕ) (b : UInt8) (st : Scan) : Bool × Scan :=
  let st := beginLine pos st
  if b = newline then
    let curr := { st.curr with len := pos - st.curr.offset }
    match addLine (malloc st.list.nodes.length) st.list curr with
    | none => (false, { st with curr := curr, newLine := true })
    | some list => (true, ⟨curr, true, list⟩)
  else (true, st)

/-- The loop over a chunk, from the position `pos` on. -/
def scanBytes (malloc : ℕ → Bool) : ℕ → List UInt8 → Scan → Bool × Scan
  | _, [], st => (true, st)
  | pos, b :: bs, st =>
    let r := scanByte malloc pos b st
    if r.1 then scanBytes malloc (pos + 1) bs r.2 else r

/-- The loop over the chunks, when `read` answers as listed and the position in the file is `pos`.
The result is the one of `scan_file` and the table; there is none as long as the loop goes on. -/
def scanLoop (malloc : ℕ → Bool) : List FileRead → ℕ → Scan → Option (Bool × LineList)
  | [], _, _ => none
  | .failed :: _, _, st => some (false, st.list)
  | .bytes [] :: _, pos, st =>
    let r := scanBytes malloc pos [newline] st
    some (r.1, r.2.list)
  | .bytes (b :: bs) :: reads, pos, st =>
    let r := scanBytes malloc pos (b :: bs) st
    if r.1 then scanLoop malloc reads (pos + (b :: bs).length) r.2 else some (false, r.2.list)

/-- `scan_file`, of a file that has just been opened. -/
def scanFile (malloc : ℕ → Bool) (reads : List FileRead) (list : LineList) :
    Option (Bool × LineList) :=
  scanLoop malloc reads 0 ⟨⟨0, 0⟩, true, list⟩

/-- The non-empty chunks in which a file with the given contents is read. -/
structure Delivery (content : List UInt8) where
  chunks : List (List UInt8)
  ne_nil : ∀ chunk ∈ chunks, chunk ≠ []
  length_le : ∀ chunk ∈ chunks, chunk.length ≤ bufSize
  flatten_eq : chunks.flatten = content

/-- The answers of `read` to these chunks, and to the call at the end of the file. -/
def Delivery.reads {content : List UInt8} (d : Delivery content) : List FileRead :=
  d.chunks.map FileRead.bytes ++ [.bytes []]

/-! ### The state after a part of the file -/

/-- The state of a scan after the bytes `p`: the table has the lines that have ended, and the
variables are about the open one. -/
structure Scanned (p : List UInt8) (st : Scan) : Prop where
  linked : st.list.Linked
  lines : st.list.lines.map Line.span = spans 0 (endedLines newline p)
  newLine : st.newLine = true ↔ openLine newline p = []
  offset : openLine newline p ≠ [] →
    st.curr.offset = p.length - (openLine newline p).length

theorem scanned_start : Scanned [] ⟨⟨0, 0⟩, true, initList⟩ :=
  ⟨linked_initList, rfl, by simp, fun h => absurd rfl h⟩

variable {malloc : ℕ → Bool} {p : List UInt8} {st : Scan}

@[simp] theorem list_beginLine (pos : ℕ) (st : Scan) : (beginLine pos st).list = st.list := by
  rw [beginLine]
  split_ifs <;> rfl

@[simp] theorem newLine_beginLine (pos : ℕ) (st : Scan) : (beginLine pos st).newLine = false := by
  rw [beginLine]
  split_ifs with hnew
  · rfl
  · exact Bool.eq_false_iff.mpr hnew

/-- From the first byte of a line on, the offset is that of the open line. -/
theorem Scanned.offset_beginLine (h : Scanned p st) :
    (beginLine p.length st).curr.offset = p.length - (openLine newline p).length := by
  rw [beginLine]
  split_ifs with hnew
  · rw [h.newLine.mp hnew]
    rfl
  · exact h.offset fun hopen => hnew (h.newLine.mpr hopen)

/-- **One byte.** -/
theorem scanned_scanByte (hmalloc : ∀ n, malloc n = true) (h : Scanned p st) (b : UInt8) :
    (scanByte malloc p.length b st).1 = true ∧
      Scanned (p ++ [b]) (scanByte malloc p.length b st).2 := by
  have hoffset := h.offset_beginLine
  have hlen := linesLength_endedLines newline p
  by_cases hb : b = newline
  · subst hb
    obtain ⟨list, hadd, hlinked, hlines⟩ := lines_addLine h.linked
      ⟨(beginLine p.length st).curr.offset, p.length - (beginLine p.length st).curr.offset⟩
    rw [scanByte, if_pos rfl, hmalloc, list_beginLine]
    dsimp only
    rw [hadd]
    refine ⟨rfl, hlinked, ?_, by simp, fun hne => absurd (openLine_concat_self _) hne⟩
    rw [hlines, List.map_append, h.lines, endedLines_concat_self, spans_splitOn]
    refine congrArg (fun span => spans 0 (endedLines newline p) ++ [span]) (Prod.ext hoffset ?_)
    change p.length - (beginLine p.length st).curr.offset = _
    omega
  · have hopen := openLine_concat_of_ne hb p
    rw [scanByte, if_neg hb]
    refine ⟨rfl, ?_, ?_, ?_, fun _ => ?_⟩
    · rw [list_beginLine]
      exact h.linked
    · rw [list_beginLine, endedLines_concat_of_ne hb]
      exact h.lines
    · rw [newLine_beginLine, hopen]
      exact iff_of_false Bool.false_ne_true
        (List.append_ne_nil_of_right_ne_nil _ (List.cons_ne_nil _ _))
    · rw [hoffset, hopen, List.length_append, List.length_append]
      simp only [List.length_singleton]
      omega

/-- **One chunk.** -/
theorem scanned_scanBytes (hmalloc : ∀ n, malloc n = true) (h : Scanned p st) (bs : List UInt8) :
    (scanBytes malloc p.length bs st).1 = true ∧
      Scanned (p ++ bs) (scanBytes malloc p.length bs st).2 := by
  induction bs generalizing p st with
  | nil => exact ⟨rfl, by rwa [List.append_nil]⟩
  | cons b bs ih =>
    obtain ⟨htrue, hscanned⟩ := scanned_scanByte hmalloc h b
    have hrest := ih hscanned
    rw [List.length_append, List.length_singleton, List.append_assoc] at hrest
    rw [scanBytes, htrue, if_pos rfl]
    exact hrest

/-- The chunks one after the other, and the end of the file. -/
theorem scanLoop_eq (hmalloc : ∀ n, malloc n = true) (h : Scanned p st)
    {chunks : List (List UInt8)} (hne : ∀ chunk ∈ chunks, chunk ≠ []) :
    ∃ st', Scanned (p ++ chunks.flatten ++ [newline]) st' ∧
      scanLoop malloc (chunks.map FileRead.bytes ++ [.bytes []]) p.length st =
        some (true, st'.list) := by
  induction chunks generalizing p st with
  | nil =>
    obtain ⟨htrue, hscanned⟩ := scanned_scanBytes hmalloc h [newline]
    refine ⟨_, by rwa [List.flatten_nil, List.append_nil], ?_⟩
    rw [List.map_nil, List.nil_append, scanLoop, htrue]
  | cons chunk chunks ih =>
    obtain ⟨hchunk, hrest⟩ := List.forall_mem_cons.mp hne
    obtain ⟨b, bs, rfl⟩ := List.exists_cons_of_ne_nil hchunk
    obtain ⟨htrue, hscanned⟩ := scanned_scanBytes hmalloc h (b :: bs)
    obtain ⟨st', hst', hloop⟩ := ih hscanned hrest
    refine ⟨st', by rwa [List.flatten_cons, ← List.append_assoc p], ?_⟩
    rw [List.map_cons, List.cons_append, scanLoop, htrue, if_pos rfl, ← hloop, List.length_append]

/-- With memory for the nodes, `scan_file` returns `1`, and the entries of its table are the spans
of the lines. -/
theorem scanFile_spans (hmalloc : ∀ n, malloc n = true) {content : List UInt8}
    (d : Delivery content) :
    ∃ table, scanFile malloc d.reads initList = some (true, table) ∧ table.Linked ∧
      table.lines.map Line.span = spans 0 (content.splitOn newline) := by
  obtain ⟨st, hst, hloop⟩ := scanLoop_eq hmalloc scanned_start d.ne_nil
  rw [List.nil_append, d.flatten_eq] at hst
  refine ⟨st.list, hloop, hst.linked, ?_⟩
  rw [hst.lines, endedLines_concat_self]

/-- **The line table.** With memory for the nodes, however the file is read, `scan_file` returns
`1` and its table lists the lines of the file in order, the one behind the last line break
included: the entries are the spans of the lines, the lines are there, and joined by line breaks
they are the file. -/
theorem scanFile_lines (malloc : ℕ → Bool) (hmalloc : ∀ n, malloc n = true) (content : List UInt8)
    (d : Delivery content) :
    ∃ table, scanFile malloc d.reads initList = some (true, table) ∧
      table.lines.map Line.span = spans 0 (content.splitOn newline) ∧
      table.lines.map (fun line => slice content line.span) = content.splitOn newline ∧
      [newline].intercalate (table.lines.map fun line => slice content line.span) = content := by
  obtain ⟨table, hscan, -, hlines⟩ := scanFile_spans hmalloc d
  have hslices : table.lines.map (fun line => slice content line.span) =
      content.splitOn newline := by
    rw [← map_slice_spans newline content, ← hlines, List.map_map]
    rfl
  refine ⟨table, hscan, hlines, hslices, ?_⟩
  rw [hslices, List.intercalate_splitOn]

/-- Two lines, the first one in two chunks and without a line break behind the last one. -/
def twoLines : Delivery [97, 98, 0x0A, 99] where
  chunks := [[97], [98, 0x0A], [99]]
  ne_nil := by decide
  length_le := by decide
  flatten_eq := rfl

theorem scanFile_lines_twoLines :
    ∃ table, scanFile (fun _ => true) twoLines.reads initList = some (true, table) ∧
      table.lines.map Line.span = [(0, 2), (3, 1)] ∧
      table.lines.map (fun line => slice ([97, 98, 0x0A, 99] : List UInt8) line.span) =
        [[97, 98], [99]] := by
  obtain ⟨table, hscan, hspans, hslices, -⟩ :=
    scanFile_lines (fun _ => true) (fun _ => rfl) [97, 98, 0x0A, 99] twoLines
  exact ⟨table, hscan, hspans, hslices⟩

end OsTasks.File
