import OsTasks.File.Session
import OsTasks.Mmap.PrintLine

/-!
# Sessions of the mapping program

`main` of the mapping program has the loop of the reading program; the table and the printed lines
are its own. The two programs are compared in whole sessions, whatever the user enters.

## Main definitions

* `main`: the function of the source.
* `SameLine`: the requested lines for which the answers are the same.

## Main results

* `main_replies`: a session without a timeout prints the lines of the file whose numbers are
  entered.
* `sessions_iff`: the sessions in which the two programs show the same.
-/

namespace OsTasks.Mmap

open OsTasks.File

/-- `main` with one argument: `open` succeeds or not, and the file is mapped. In each round `fwrite`
writes some bytes of a line, and `printf` its line break or not. -/
def main (opened : Bool) (malloc : ℕ → Bool) (content : List UInt8) (written : ℕ → Line → ℕ)
    (printf : ℕ → Line → Bool) (calls rounds : ℕ) (buf : Buffer) (k : Kernel) : Option Session :=
  if opened then
    let r := scanFile malloc content initList
    if r.1 then
      mainLoop (fun round line => some (printLine (written round line) (printf round line)
        content line)) r.2 calls rounds 0 buf k
    else some ⟨0, [.error "File scan failed"]⟩
  else some ⟨1, [.error "Unable to open file"]⟩

/-- What is printed of a line when nothing fails. -/
def wholeLine (content : List UInt8) (line : Line) : List UInt8 :=
  slice content line.span ++ [newline]

theorem printLine_eq {written : ℕ} {line : Line} (h : line.len ≤ written) (content : List UInt8) :
    printLine written true content line = (true, wholeLine content line) := by
  rw [printLine, if_neg (Nat.not_lt.mpr h), if_pos rfl]
  rfl

/-- The answer to a request by the lines of a file. -/
def reply (lines : List (List UInt8)) : Request → Shown
  | .notNumber => .message notNumberText
  | .notPositive => .message notPositiveText
  | .line n =>
    match lines[n]? with
    | none => .message noSuchLineText
    | some l => .lines (l ++ [newline])

section Printing

variable {malloc : ℕ → Bool} {written : ℕ → Line → ℕ} {printf : ℕ → Line → Bool}
  (hmalloc : ∀ n, malloc n = true) (hwritten : ∀ round line, line.len ≤ written round line)
  (hprintf : ∀ round line, printf round line = true)

include hmalloc hwritten hprintf in
/-- `main` when nothing fails but the input may. -/
theorem main_eq (content : List UInt8) :
    ∃ table, scanFile malloc content initList = (true, table) ∧
      table.lines.map Line.span = spans 0 (endedLines newline content) ∧
      ∀ calls rounds buf k, main true malloc content written printf calls rounds buf k =
        (dialogue calls rounds buf k).map
          (Dialogue.session (fun _ => wholeLine content) table.lines 0) := by
  obtain ⟨table, hscan, hlinked, hspans⟩ := scanFile_endedLines hmalloc content
  refine ⟨table, hscan, hspans, fun calls rounds buf k => ?_⟩
  rw [main, if_pos rfl, hscan]
  refine mainLoop_eq hlinked (fun round line _ => ?_) 0 buf k
  rw [hprintf, printLine_eq (hwritten round line)]

end Printing

/-- By the table, a request has the answer that the lines of the file give. -/
theorem answer_eq_reply {content : List UInt8} {lines : List Line}
    (h : lines.map Line.span = spans 0 (endedLines newline content)) (req : Request) :
    answer (wholeLine content) lines req = reply (endedLines newline content) req := by
  have hslices : lines.map (fun line => slice content line.span) = endedLines newline content := by
    rw [← map_slice_spans_endedLines newline content, ← h, List.map_map]
    rfl
  cases req with
  | notNumber => rfl
  | notPositive => rfl
  | line n =>
    rw [answer, reply, ← hslices, List.getElem?_map]
    cases lines[n]? <;> rfl

/-- **A session.** For every file, and whatever lines are entered, each with its line break, in
whatever chunks they arrive without a pause of five seconds, `main` of the mapping program ends with
the exit code `0`. It has replied to the accepted lines in front of the first one that asks to quit:
to the number of a line of the file that has its line break by this line, and to the others by a
message. -/
theorem main_replies (malloc : ℕ → Bool) (hmalloc : ∀ n, malloc n = true)
    (written : ℕ → Line → ℕ) (hwritten : ∀ round line, line.len ≤ written round line)
    (printf : ℕ → Line → Bool) (hprintf : ∀ round line, printf round line = true)
    (content mem : List UInt8) (lines : List (List UInt8)) (hlines : ∀ l ∈ lines, newline ∉ l)
    (d : Chunking mem.length (textOf lines)) (calls rounds : ℕ)
    (hcalls : (textOf lines).length < calls) (hrounds : (textOf lines).length < rounds) :
    ∃ s, main true malloc content written printf calls rounds (makeBuf mem) (kernelOf d) = some s ∧
      s.code = 0 ∧ s.replies = (requestsOf ((accepted inputSize false lines).map cString)).map
        (reply (endedLines newline content)) := by
  obtain ⟨table, -, hspans, hmain⟩ := main_eq hmalloc hwritten hprintf content
  obtain ⟨dlg, hdlg, hending, hrequests⟩ := (source_makeBuf d).dialogue hlines hcalls hrounds
  refine ⟨_, by rw [hmain, hdlg]; rfl, by rw [Dialogue.session, hending]; rfl, ?_⟩
  rw [replies_session _ _ _ hending, hrequests]
  exact List.map_congr_left fun req _ => answer_eq_reply hspans req

/-- A number that the file has, and one that it has not. -/
def twoNumbers : Chunking 4 (textOf [[0x31], [0x39]]) where
  chunks := [[0x31, 0x0A, 0x39], [0x0A]]
  ne_nil := by decide
  length_le := by decide
  flatten_eq := rfl

theorem main_replies_twoNumbers :
    ∃ s, main true (fun _ => true) [97, 0x0A] (fun _ line => line.len) (fun _ _ => true) 5 5
        (makeBuf [0, 0, 0, 0]) (kernelOf twoNumbers) = some s ∧
      s.code = 0 ∧ s.replies = [.lines [97, 0x0A], .message noSuchLineText] :=
  main_replies (fun _ => true) (fun _ => rfl) (fun _ line => line.len) (fun _ _ => Nat.le_refl _)
    (fun _ _ => true) (fun _ _ => rfl) [97, 0x0A] [0, 0, 0, 0] [[0x31], [0x39]] (by decide)
    twoNumbers 5 5 (by decide) (by decide)

/-! ### Comparing the sessions -/

/-- The first `read` in a round gets a line of the file that is not empty as a whole. -/
def ReadAtOnce {content : List UInt8}
    (p : ℕ → (offset : ℕ) → Chunking (bufSize - 1) (content.drop offset)) (round : ℕ)
    (span : ℕ × ℕ) : Prop :=
  0 < span.2 ∧ ∃ chunk ∈ (p round span.1).chunks.head?, span.2 ≤ chunk.length

/-- The two programs answer in the same way in a round: to a request for a line only if neither of
them has the line, or both have it and the first `read` gets it as a whole. -/
def SameAnswer {content : List UInt8}
    (p : ℕ → (offset : ℕ) → Chunking (bufSize - 1) (content.drop offset)) (round : ℕ) :
    Request → Prop
  | .line n => (content.splitOn newline).length ≤ n ∨
      ∃ span, (spans 0 (endedLines newline content))[n]? = some span ∧ ReadAtOnce p round span
  | _ => True

/-- They end in the same way in a round: after a timeout only if no line is empty, each one is read
as a whole, and the file ends with a line break or is empty. -/
def SameEnding {content : List UInt8}
    (p : ℕ → (offset : ℕ) → Chunking (bufSize - 1) (content.drop offset)) (round : ℕ) :
    Ending → Prop
  | .timeout => openLine newline content = [] ∧
      ∀ span ∈ spans 0 (endedLines newline content), ReadAtOnce p round span
  | _ => True

/-- What the reading program prints of a line. -/
def inParts {content : List UInt8}
    (p : ℕ → (offset : ℕ) → Chunking (bufSize - 1) (content.drop offset)) (round : ℕ)
    (line : Line) : List UInt8 :=
  (partsOf (p round line.offset).chunks line.len).flatMap (· ++ [newline])

/-- Lists of answers, with something behind them. -/
theorem answers_append_inj {print print' : ℕ → Line → List UInt8} {lines lines' : List Line}
    {reqs : List (List String × Request)} {round : ℕ} {xs xs' : List Shown} :
    answers print lines round reqs ++ xs = answers print' lines' round reqs ++ xs' ↔
      (∀ i ps req, reqs[i]? = some (ps, req) → answer (print (round + i)) lines req =
        answer (print' (round + i)) lines' req) ∧ xs = xs' := by
  induction reqs generalizing round with
  | nil => simp [answers]
  | cons r reqs ih =>
    obtain ⟨ps, req⟩ := r
    rw [answers, answers, List.append_assoc, List.append_assoc, List.append_cancel_left_eq,
      List.cons_append, List.cons_append, List.cons.injEq, ih, ← and_assoc]
    refine and_congr_left fun _ => ?_
    constructor
    · rintro ⟨hreq, hreqs⟩ i ps' req' hget
      cases i with
      | zero =>
        obtain ⟨-, rfl⟩ := Prod.mk.inj (Option.some.inj hget)
        exact hreq
      | succ i =>
        have hrest := hreqs i ps' req' hget
        rwa [Nat.add_right_comm] at hrest
    · refine fun h => ⟨h 0 ps req rfl, fun i ps' req' hget => ?_⟩
      have hrest := h (i + 1) ps' req' hget
      rwa [Nat.add_right_comm]

section Comparing

variable {content : List UInt8}
  {p : ℕ → (offset : ℕ) → Chunking (bufSize - 1) (content.drop offset)} {round : ℕ}
  {line last : Line} {lines : List Line}

variable (p round) in
/-- The parts that are printed of a line of the file. -/
theorem parts_of_mem (h : line.span ∈ spans 0 (content.splitOn newline)) :
    (partsOf (p round line.offset).chunks line.len).flatten = slice content line.span ∧
      (∀ q ∈ partsOf (p round line.offset).chunks line.len, q ≠ [] ∧ newline ∉ q) ∧
      ((partsOf (p round line.offset).chunks line.len).length = 1 ↔
        ReadAtOnce p round line.span) := by
  have hle := add_le_length_of_mem_spans h
  have hlen : line.len ≤ (p round line.offset).chunks.flatten.length := by
    rw [(p round line.offset).flatten_eq, List.length_drop]
    exact Nat.le_sub_of_add_le' hle
  have hflatten : (partsOf (p round line.offset).chunks line.len).flatten =
      slice content line.span := by
    rw [flatten_partsOf, (p round line.offset).flatten_eq]
    rfl
  have hmem : slice content line.span ∈ content.splitOn newline := by
    rw [← map_slice_spans newline content]
    exact List.mem_map_of_mem h
  refine ⟨hflatten, fun q hq => ⟨?_, fun hnl => ?_⟩, length_partsOf_eq_one_iff hlen⟩
  · exact ne_nil_of_mem_partsOf (p round line.offset).ne_nil hq
  · exact not_mem_of_mem_splitOn hmem (hflatten ▸ List.mem_flatten_of_mem hq hnl)

variable (p round) in
/-- One line. -/
theorem inParts_eq_iff (h : line.span ∈ spans 0 (content.splitOn newline)) :
    inParts p round line = wholeLine content line ↔ ReadAtOnce p round line.span := by
  obtain ⟨hflatten, -, hone⟩ := parts_of_mem p round h
  rw [inParts, wholeLine, ← hflatten, flatMap_newline_iff, hone]

/-- All lines, and the one behind the last line break. -/
theorem flatMap_inParts_iff
    (h : ∀ line ∈ lines, line.span ∈ spans 0 (content.splitOn newline))
    (hlast : last.span ∈ spans 0 (content.splitOn newline)) :
    (lines ++ [last]).flatMap (inParts p round) = lines.flatMap (wholeLine content) ↔
      (∀ line ∈ lines, ReadAtOnce p round line.span) ∧ last.len = 0 := by
  let parts (line : Line) := partsOf (p round line.offset).chunks line.len
  have hne : ∀ ps ∈ lines.map parts, ∀ q ∈ ps, q ≠ [] ∧ newline ∉ q := by
    rw [List.forall_mem_map]
    exact fun line hline => (parts_of_mem p round (h line hline)).2.1
  obtain ⟨-, hnelast, -⟩ := parts_of_mem p round hlast
  have hlen : last.len ≤ (p round last.offset).chunks.flatten.length := by
    rw [(p round last.offset).flatten_eq, List.length_drop]
    exact Nat.le_sub_of_add_le' (add_le_length_of_mem_spans hlast)
  have hflat := flatMap_parts_iff (fun ps hps q hq => (hne ps hps q hq).1)
    (fun ps hps q hq => (hne ps hps q hq).2) (fun q hq => (hnelast q hq).1)
    fun q hq => (hnelast q hq).2
  have hleft : (lines ++ [last]).flatMap (inParts p round) =
      ((lines.map parts).flatten ++ parts last).flatMap (· ++ [newline]) := by
    rw [List.flatMap_append, List.flatMap_append, List.flatMap_singleton, ← List.flatMap_def,
      List.flatMap_assoc]
    rfl
  have hright : lines.flatMap (wholeLine content) =
      (lines.map parts).flatMap fun ps => ps.flatten ++ [newline] := by
    rw [List.flatMap_map]
    refine List.flatMap_congr fun line hline => ?_
    rw [wholeLine, ← (parts_of_mem p round (h line hline)).1]
  rw [hleft, hright, hflat, List.forall_mem_map, partsOf_eq_nil_iff hlen]
  exact and_congr_left fun _ => forall₂_congr fun line hline =>
    (parts_of_mem p round (h line hline)).2.2

/-- The table of the mapping program and the line that the other one has besides. -/
theorem span_mem (hspans : lines.map Line.span = spans 0 (endedLines newline content))
    (hline : line ∈ lines) : line.span ∈ spans 0 (content.splitOn newline) := by
  rw [spans_splitOn, ← hspans]
  exact List.mem_append_left _ (List.mem_map_of_mem hline)

/-- One answer. -/
theorem answer_eq_iff (hspans : lines.map Line.span = spans 0 (endedLines newline content))
    (req : Request) :
    answer (inParts p round) (lines ++ [last]) req = answer (wholeLine content) lines req ↔
      SameAnswer p round req := by
  cases req with
  | notNumber => exact iff_of_true rfl trivial
  | notPositive => exact iff_of_true rfl trivial
  | line n =>
    have hlength : (content.splitOn newline).length = lines.length + 1 := by
      have hlen := congrArg List.length hspans
      rw [List.length_map, length_spans] at hlen
      rw [splitOn_eq, List.length_append, List.length_singleton, hlen]
    rw [answer, answer, SameAnswer, hlength, ← hspans, List.getElem?_map]
    rcases Nat.lt_trichotomy n lines.length with hn | rfl | hn
    · obtain ⟨line, hget⟩ : ∃ line, lines[n]? = some line := ⟨_, List.getElem?_eq_getElem hn⟩
      have hone := inParts_eq_iff p round (span_mem hspans (List.mem_of_getElem? hget))
      rw [List.getElem?_append_left hn, hget]
      dsimp only [Option.map_some]
      rw [Shown.lines.injEq, hone]
      constructor
      · exact fun h => .inr ⟨_, rfl, h⟩
      · rintro (hle | ⟨span, hspan, h⟩)
        · omega
        · obtain rfl := Option.some.inj hspan
          exact h
    · -- the line behind the last line break
      rw [List.getElem?_concat_length, List.getElem?_eq_none (Nat.le_refl _)]
      refine iff_of_false (by rintro ⟨⟩) ?_
      rintro (hle | ⟨span, ⟨⟩, -⟩)
      omega
    · have hge : (lines ++ [last]).length ≤ n := by
        rw [List.length_append, List.length_singleton]
        exact hn
      rw [List.getElem?_eq_none hge, List.getElem?_eq_none (Nat.le_of_lt hn)]
      exact iff_of_true rfl (.inl hn)

/-- The end. -/
theorem ending_eq_iff (hspans : lines.map Line.span = spans 0 (endedLines newline content))
    (hlast : last.span ∈ spans 0 (content.splitOn newline))
    (hlen : last.len = (openLine newline content).length) (ending : Ending) :
    ending.shown (inParts p) (lines ++ [last]) round =
        ending.shown (fun _ => wholeLine content) lines round ↔
      SameEnding p round ending := by
  cases ending with
  | quit => exact iff_of_true rfl trivial
  | failed => exact iff_of_true rfl trivial
  | timeout =>
    rw [Ending.shown, Ending.shown, List.cons.injEq, Shown.lines.injEq,
      flatMap_inParts_iff (fun line hline => span_mem hspans hline) hlast, SameEnding, ← hspans,
      List.forall_mem_map, hlen, List.length_eq_zero_iff, and_iff_left rfl, and_comm]

end Comparing

/-- **The two programs in a whole session.** Let a file without zero bytes be read and mapped, and
let the input be what it may: read in any chunks, failing, or silent for five seconds. The programs
come to an end with the same requests, in no more rounds than the input can supply, and they end
with the same exit code and have shown the same exactly if the answers to these and the ends are: a
requested line is behind the last one that the reading program has, or it is not empty, ends with a
line break and is read as a whole. -/
theorem sessions_iff (malloc malloc' puts : ℕ → Bool) (hmalloc : ∀ n, malloc n = true)
    (hmalloc' : ∀ n, malloc' n = true) (hputs : ∀ n, puts n = true) (written : ℕ → Line → ℕ)
    (hwritten : ∀ round line, line.len ≤ written round line) (printf : ℕ → Line → Bool)
    (hprintf : ∀ round line, printf round line = true) (content : List UInt8)
    (hzero : 0 ∉ content) (d : Delivery content)
    (p : ℕ → (offset : ℕ) → Chunking (bufSize - 1) (content.drop offset)) (m : ℕ) (buf : Buffer)
    (k : Kernel) (calls rounds : ℕ) (hcalls : supply buf k < calls)
    (hrounds : supply buf k < rounds) :
    ∃ dlg s s', dialogue calls rounds buf k = some dlg ∧
      File.main true malloc d.reads
        (fun round line => File.printLine puts (readsOf (p round line.offset) m) line) true calls
        rounds buf k = some s ∧
      main true malloc' content written printf calls rounds buf k = some s' ∧
      (s = s' ↔
        (∀ i ps req, dlg.requests[i]? = some (ps, req) → SameAnswer p i req) ∧
          SameEnding p dlg.requests.length dlg.ending) := by
  obtain ⟨dlg, hdlg⟩ := exists_dialogue hcalls hrounds
  obtain ⟨table, hscan, hlinked, hspans⟩ := scanFile_spans hmalloc d
  obtain ⟨table', -, hspans', hmain'⟩ := main_eq hmalloc' hwritten hprintf content
  let last : Line :=
    ⟨content.length - (openLine newline content).length, (openLine newline content).length⟩
  have hlines : table.lines = table'.lines ++ [last] := by
    refine lines_eq_of_spans ?_
    rw [List.map_append, hspans, hspans', spans_splitOn]
    rfl
  have hlast : last.span ∈ spans 0 (content.splitOn newline) := by
    rw [spans_splitOn]
    exact List.mem_append_right _ List.mem_cons_self
  have hmain : File.main true malloc d.reads
      (fun round line => File.printLine puts (readsOf (p round line.offset) m) line) true calls
      rounds buf k = some (dlg.session (inParts p) table.lines 0) := by
    rw [File.main, if_pos rfl, hscan, Option.bind_some, if_pos rfl, mainLoop_eq hlinked, hdlg]
    · rfl
    · intro round line hline
      have hspan : line.span ∈ spans 0 (content.splitOn newline) :=
        hspans ▸ List.mem_map_of_mem hline
      refine File.printLine_eq hputs (fun h => hzero (List.mem_of_mem_drop h)) _ m ?_
      rw [List.length_drop]
      exact Nat.le_sub_of_add_le' (add_le_length_of_mem_spans hspan)
  refine ⟨dlg, _, _, hdlg, hmain, by rw [hmain', hdlg]; rfl, ?_⟩
  rw [Dialogue.session, Dialogue.session, Session.mk.injEq, and_iff_right rfl,
    answers_append_inj, List.append_cancel_left_eq, hlines]
  simp only [Nat.zero_add, answer_eq_iff hspans', ending_eq_iff hspans' hlast rfl]

/-- A short file that is read at once from any offset on. -/
def readWhole (content : List UInt8) (h : content.length ≤ bufSize - 1) (offset : ℕ) :
    Chunking (bufSize - 1) (content.drop offset) where
  chunks := if content.drop offset = [] then [] else [content.drop offset]
  ne_nil := by
    split_ifs with hnil
    · simp
    · simpa using hnil
  length_le := by
    split_ifs with hnil
    · simp
    · simpa using Nat.le_trans (Nat.sub_le _ _) h
  flatten_eq := by
    split_ifs with hnil
    · exact hnil.symm
    · simp

/-- A line in front of an empty one. -/
def lineAndBlank : Delivery [97, 0x0A, 0x0A] where
  chunks := [[97, 0x0A, 0x0A]]
  ne_nil := by decide
  length_le := by decide
  flatten_eq := rfl

/-- The first line is asked for, and the input then ends. -/
def firstLine : Kernel := ⟨[.input, .input], [.bytes [0x31, 0x0A]]⟩

/-- The sessions are the same when the first line is asked for, and the input then ends. -/
theorem sessions_lineAndBlank :
    ∃ s s', File.main true (fun _ => true) lineAndBlank.reads
        (fun _ line => File.printLine (fun _ => true)
          (readsOf (readWhole [97, 0x0A, 0x0A] (by decide) line.offset) 1) line) true 4 4
        (makeBuf [0, 0]) firstLine = some s ∧
      main true (fun _ => true) [97, 0x0A, 0x0A] (fun _ line => line.len) (fun _ _ => true) 4 4
        (makeBuf [0, 0]) firstLine = some s' ∧ s = s' := by
  have hdialogue : dialogue 4 4 (makeBuf [0, 0]) firstLine =
      some ⟨[([prompt], .line 0)], [prompt], .quit⟩ := rfl
  obtain ⟨dlg, s, s', hdlg, hs, hs', hiff⟩ := sessions_iff (fun _ => true) (fun _ => true)
    (fun _ => true) (fun _ => rfl) (fun _ => rfl) (fun _ => rfl) (fun _ line => line.len)
    (fun _ _ => Nat.le_refl _) (fun _ _ => true) (fun _ _ => rfl) [97, 0x0A, 0x0A] (by decide)
    lineAndBlank (fun _ => readWhole [97, 0x0A, 0x0A] (by decide)) 1 (makeBuf [0, 0]) firstLine 4 4
    (by decide) (by decide)
  obtain rfl := Option.some.inj (hdialogue.symm.trans hdlg)
  refine ⟨s, s', hs, hs', hiff.mpr ⟨fun i ps req hget => ?_, trivial⟩⟩
  cases i with
  | succ i => exact absurd hget (by simp)
  | zero =>
    obtain ⟨-, rfl⟩ := Prod.mk.inj (Option.some.inj hget)
    exact .inr ⟨(0, 1), rfl, by decide, _, rfl, by decide⟩

end OsTasks.Mmap
