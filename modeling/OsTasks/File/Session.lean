import OsTasks.File.InputLine
import OsTasks.File.PrintLine
import OsTasks.Library.Decimal

/-!
# Sessions

`main` of the reading program scans the file, and asks for line numbers and prints the lines with
these numbers until a zero is entered or the input ends. When nothing is entered for five seconds it
prints all lines and ends. `main` of the mapping program has the same loop with another
`print_line`, which is an argument here.

The texts of `perror` that are about a single call of the operating system are left out.

## Main definitions

* `strToLong`, `printLines`, `mainLoop`, `main`: the functions of the source.
* `Request`, `Dialogue`, `dialogue`: what is asked for in a session, whatever the file is.
* `Dialogue.session`: the answers.

## Main results

* `strToLong_iff`, `strToLong_ofInt`: the strings that are taken for a number.
* `mainLoop_eq`: a session is a dialogue with its answers.
* `exists_dialogue`: every dialogue ends.
* `Source.dialogue`: the lines that are entered determine the dialogue.
-/

namespace OsTasks.File

/-! ### The functions of the source -/

/-- `LONG_MIN`, of 64 bits. -/
def longMin : ℤ := -2 ^ 63

/-- `LONG_MAX`. -/
def longMax : ℤ := 2 ^ 63 - 1

/-- `str_to_long`; there is no number when the source returns `0`. A string without a numeral at its
beginning is no error for `strtol`, but it is left as it is. -/
def strToLong (str : List UInt8) : Option ℤ :=
  let r := strtol longMin longMax str
  if r.rest ≠ [] ∨ r.range then none else some r.value

/-- What a session shows: the texts of `input_valid_line`, the texts of `main`, bytes of the file,
and the texts on the standard error. -/
inductive Shown
  | prompt (text : String)
  | message (text : String)
  | lines (bytes : List UInt8)
  | error (text : String)
  deriving DecidableEq

/-- The exit code, and what has been shown. -/
structure Session where
  code : ℕ
  shown : List Shown
  deriving DecidableEq

/-- A session with something in front. -/
def Session.after (shown : List Shown) (s : Session) : Session :=
  { s with shown := shown ++ s.shown }

/-- `print_lines`, of the lines that are left. -/
def printLines (printLine : Line → Option (Bool × List UInt8)) :
    List Line → Option (Bool × List UInt8)
  | [] => some (true, [])
  | line :: lines =>
    (printLine line).bind fun p =>
      if p.1 then (printLines printLine lines).map fun ps => (ps.1, p.2 ++ ps.2)
      else some (false, p.2)

/-- The size of the array `input`. -/
def inputSize : ℕ := 22

/-- The text for a string that is no number. -/
def notNumberText : String := "Input string is not a number or too long\n"

/-- The text for a negative number. -/
def notPositiveText : String := "Please enter positive number\n"

/-- The text for a number that the table does not have. -/
def noSuchLineText : String := "No such line\n"

/-- The loop of `main`, from the round `round` on, for at most as many rounds as the first counter
says; there is no result when there are more. `print_line` may print a line in different parts in
different rounds. -/
def mainLoop (printLine : ℕ → Line → Option (Bool × List UInt8)) (table : LineList) (calls : ℕ) :
    ℕ → ℕ → Buffer → Kernel → Option Session
  | 0, _, _, _ => none
  | rounds + 1, round, buf, k =>
    (inputValidLine calls inputSize buf k).bind fun r =>
      let next (shown : List Shown) :=
        (mainLoop printLine table calls rounds (round + 1) r.buf r.kernel).map (.after shown)
      (if r.ret = rlEof then some ⟨0, []⟩
      else if r.ret = rlFail then some ⟨1, [.error "input_valid_line failed\n"]⟩
      else if r.ret = rlTimeout then
        (printLines (printLine round) table.lines).map fun p =>
          ⟨0, .lines p.2 :: if p.1 then [] else [.error "print_lines failed\n"]⟩
      else
        match strToLong (cString r.line) with
        | none => next [.message notNumberText]
        | some num =>
          if num = 0 then some ⟨0, []⟩
          else if num < 0 then next [.message notPositiveText]
          else
            match table.getLine (num - 1).toNat with
            | none => next [.message noSuchLineText]
            | some line =>
              (printLine round line).bind fun p =>
                if p.1 then next [.lines p.2]
                else some ⟨1, [.lines p.2, .error "print_line failed\n"]⟩).map
        (.after (r.printed.map .prompt))

/-- `main` of the reading program with one argument: `open` succeeds or not, the scan of the file
reads `reads`, and `close` succeeds or not. -/
def main (opened : Bool) (malloc : ℕ → Bool) (reads : List FileRead)
    (printLine : ℕ → Line → Option (Bool × List UInt8)) (closed : Bool) (calls rounds : ℕ)
    (buf : Buffer) (k : Kernel) : Option Session :=
  if opened then
    (scanFile malloc reads initList).bind fun r =>
      (if r.1 then mainLoop printLine r.2 calls rounds 0 buf k
      else some ⟨0, [.error "File scan failed"]⟩).map fun s =>
        if closed then s else ⟨1, s.shown ++ [.error "Unable to close file"]⟩
  else some ⟨1, [.error "Unable to open file"]⟩

/-! ### Numbers -/

theorem strToLong_eq_some_iff {str : List UInt8} {v : ℤ} :
    strToLong str = some v ↔ strtol longMin longMax str = ⟨v, [], false⟩ := by
  rw [strToLong, Option.ite_none_left_eq_some, not_or, not_not, Bool.not_eq_true, Option.some_inj]
  constructor
  · rintro ⟨⟨hrest, hrange⟩, hvalue⟩
    rw [← hrest, ← hrange, ← hvalue]
  · intro h
    rw [h]
    exact ⟨⟨rfl, rfl⟩, rfl⟩

/-- **The strings that are numbers.** `str_to_long` takes a string for a number exactly if it is a
numeral of a value that a `long` has, with white space in front if there is any and with nothing
behind it, or the empty string, which is zero. -/
theorem strToLong_iff (str : List UInt8) (v : ℤ) :
    strToLong str = some v ↔
      (∃ n : Numeral, n.bytes = str ∧ n.value = v ∧ longMin ≤ v ∧ v ≤ longMax) ∨
        str = [] ∧ v = 0 := by
  rw [strToLong_eq_some_iff]
  constructor
  · intro h
    rcases exists_numeral str with ⟨n, rest, rfl, hrest⟩ | hnone
    · rw [strtol_append n hrest, clamp_eq_iff] at h
      obtain ⟨rfl, rfl, hlo, hhi⟩ := h
      exact .inl ⟨n, (List.append_nil _).symm, rfl, hlo, hhi⟩
    · obtain ⟨hv, hstr, -⟩ := Integer.mk.inj ((hnone _ _).symm.trans h)
      exact .inr ⟨hstr, hv.symm⟩
  · rintro (⟨n, rfl, rfl, hlo, hhi⟩ | ⟨rfl, rfl⟩)
    · rw [strtol_bytes, clamp_eq_iff]
      exact ⟨rfl, rfl, hlo, hhi⟩
    · rfl

/-- **Every `long` can be entered.** Written in decimal, a value of a `long` is a valid line for
the array `input`, and `str_to_long` gives it back. -/
theorem strToLong_ofInt (v : ℤ) (hlo : longMin ≤ v) (hhi : v ≤ longMax) :
    newline ∉ (Numeral.ofInt v).bytes ∧ Valid inputSize (Numeral.ofInt v).bytes ∧
      strToLong (cString ((Numeral.ofInt v).bytes ++ [0, 0])) = some v := by
  have hbyte : ∀ b ∈ (Numeral.ofInt v).bytes, b = minus ∨ IsDigit b := by
    intro b hb
    rw [Numeral.bytes, Numeral.ofInt, List.nil_append] at hb
    rcases List.mem_append.mp hb with hb | hb
    · split_ifs at hb
      · exact .inl (List.mem_singleton.mp hb)
      · exact absurd hb List.not_mem_nil
    · exact .inr (isDigit_of_mem_decimal hb)
  have hnot {b : UInt8} (hminus : b ≠ minus) (hdigit : ¬ IsDigit b) :
      b ∉ (Numeral.ofInt v).bytes := fun hb => (hbyte b hb).elim hminus hdigit
  have hdigits : (decimal v.natAbs).length ≤ 19 := by
    rw [length_decimal_le_iff (by decide)]
    unfold longMin longMax at *
    omega
  have hsign : (Numeral.ofInt v).sign.bytes.length ≤ 1 := by
    rw [Numeral.ofInt]
    split_ifs
    · exact Nat.le_refl _
    · exact Nat.zero_le _
  refine ⟨hnot (by decide) (by decide), ⟨?_, ?_⟩, ?_⟩
  · rw [Numeral.bytes, Ne, List.append_eq_nil_iff, List.append_eq_nil_iff]
    exact fun h => (Numeral.ofInt v).ne_nil h.2.2
  · rw [Numeral.bytes, List.length_append, List.length_append]
    have hblanks : (Numeral.ofInt v).blanks.length = 0 := rfl
    have hlength : (Numeral.ofInt v).digits.length = (decimal v.natAbs).length := rfl
    have hsize : inputSize - 2 = 20 := rfl
    omega
  · rw [cString_append_zero, (cString_eq_self_iff _).mpr (hnot (by decide) (by decide)),
      strToLong_eq_some_iff, strtol_bytes, value_ofInt, clamp_eq_iff]
    exact ⟨rfl, rfl, hlo, hhi⟩

theorem strToLong_ofInt_longMin :
    (Numeral.ofInt longMin).bytes.length = inputSize - 2 ∧
      strToLong (cString ((Numeral.ofInt longMin).bytes ++ [0, 0])) = some longMin :=
  ⟨by decide, (strToLong_ofInt longMin (by decide) (by decide)).2.2⟩

/-! ### What is asked for -/

/-- What a string that has been entered asks for; lines are counted from `0`. -/
inductive Request
  | notNumber
  | notPositive
  | line (n : ℕ)
  deriving DecidableEq

/-- The request of a string; there is none when the session ends. -/
def request (str : List UInt8) : Option Request :=
  match strToLong str with
  | none => some .notNumber
  | some num =>
    if num = 0 then none else if num < 0 then some .notPositive else some (.line (num - 1).toNat)

/-- Why a session ends when printing does not fail. -/
inductive Ending
  | quit
  | failed
  | timeout
  deriving DecidableEq

/-- The requests of a session, each with the texts in front of it, and its end. -/
structure Dialogue where
  requests : List (List String × Request)
  prompts : List String
  ending : Ending

/-- The dialogue of a session: the loop of `main` without its answers. -/
def dialogue (calls : ℕ) : ℕ → Buffer → Kernel → Option Dialogue
  | 0, _, _ => none
  | rounds + 1, buf, k =>
    (inputValidLine calls inputSize buf k).bind fun r =>
      if r.ret = rlEof then some ⟨[], r.printed, .quit⟩
      else if r.ret = rlFail then some ⟨[], r.printed, .failed⟩
      else if r.ret = rlTimeout then some ⟨[], r.printed, .timeout⟩
      else
        match request (cString r.line) with
        | none => some ⟨[], r.printed, .quit⟩
        | some req =>
          (dialogue calls rounds r.buf r.kernel).map fun d =>
            { d with requests := (r.printed, req) :: d.requests }

/-- The answer to a request, when a line is printed as `print` says. -/
def answer (print : Line → List UInt8) (lines : List Line) : Request → Shown
  | .notNumber => .message notNumberText
  | .notPositive => .message notPositiveText
  | .line n =>
    match lines[n]? with
    | none => .message noSuchLineText
    | some line => .lines (print line)

/-- The answers to requests, from a round on. -/
def answers (print : ℕ → Line → List UInt8) (lines : List Line) :
    ℕ → List (List String × Request) → List Shown
  | _, [] => []
  | round, (prompts, req) :: reqs =>
    prompts.map .prompt ++ answer (print round) lines req :: answers print lines (round + 1) reqs

/-- What is shown when a session ends in the round `round`. -/
def Ending.shown (print : ℕ → Line → List UInt8) (lines : List Line) (round : ℕ) :
    Ending → List Shown
  | .quit => []
  | .failed => [.error "input_valid_line failed\n"]
  | .timeout => [.lines (lines.flatMap (print round))]

/-- The session of a dialogue, from a round on. -/
def Dialogue.session (print : ℕ → Line → List UInt8) (lines : List Line) (round : ℕ)
    (d : Dialogue) : Session where
  code := if d.ending = .failed then 1 else 0
  shown := answers print lines round d.requests ++ (d.prompts.map .prompt ++
    d.ending.shown print lines (round + d.requests.length))

variable {printLine : ℕ → Line → Option (Bool × List UInt8)} {print : ℕ → Line → List UInt8}
  {table : LineList} {calls rounds : ℕ}

theorem printLines_eq {printLine : Line → Option (Bool × List UInt8)}
    {print : Line → List UInt8} {lines : List Line}
    (h : ∀ line ∈ lines, printLine line = some (true, print line)) :
    printLines printLine lines = some (true, lines.flatMap print) := by
  induction lines with
  | nil => rfl
  | cons line lines ih =>
    obtain ⟨hline, hlines⟩ := List.forall_mem_cons.mp h
    rw [printLines, hline, Option.bind_some, if_pos rfl, ih hlines]
    rfl

@[simp] theorem after_after (shown shown' : List Shown) (s : Session) :
    (s.after shown').after shown = s.after (shown ++ shown') := by
  rw [Session.after, Session.after, Session.after, List.append_assoc]

/-- One request more. -/
theorem session_cons (print : ℕ → Line → List UInt8) (lines : List Line) (round : ℕ)
    (prompts : List String) (req : Request) (d : Dialogue) :
    Dialogue.session print lines round { d with requests := (prompts, req) :: d.requests } =
      (d.session print lines (round + 1)).after
        (prompts.map .prompt ++ [answer (print round) lines req]) := by
  rw [Dialogue.session, Dialogue.session, Session.after, answers]
  dsimp only
  rw [List.length_cons, Nat.add_right_comm, ← Nat.add_assoc]
  simp only [List.append_assoc, List.cons_append, List.nil_append]

/-- **A session is a dialogue with its answers**, whatever the input does, when every line of the
table can be printed. -/
theorem mainLoop_eq (htable : table.Linked)
    (hprint : ∀ round, ∀ line ∈ table.lines, printLine round line = some (true, print round line))
    (round : ℕ) (buf : Buffer) (k : Kernel) :
    mainLoop printLine table calls rounds round buf k =
      (dialogue calls rounds buf k).map (Dialogue.session print table.lines round) := by
  induction rounds generalizing round buf k with
  | zero => rfl
  | succ rounds ih =>
    rw [mainLoop, dialogue]
    cases hinput : inputValidLine calls inputSize buf k with
    | none => rfl
    | some r =>
      have hnext := ih (round + 1) r.buf r.kernel
      simp only [Option.bind_some]
      by_cases heof : r.ret = rlEof
      · rw [if_pos heof, if_pos heof]
        simp [Session.after, Dialogue.session, Ending.shown, answers]
      by_cases hfail : r.ret = rlFail
      · rw [if_neg heof, if_neg heof, if_pos hfail, if_pos hfail]
        simp [Session.after, Dialogue.session, Ending.shown, answers]
      by_cases htimeout : r.ret = rlTimeout
      · rw [if_neg heof, if_neg heof, if_neg hfail, if_neg hfail, if_pos htimeout, if_pos htimeout,
          printLines_eq (hprint round)]
        simp [Session.after, Dialogue.session, Ending.shown, answers]
      rw [if_neg heof, if_neg heof, if_neg hfail, if_neg hfail, if_neg htimeout, if_neg htimeout,
        request]
      have hrest (req : Request) :
          (((mainLoop printLine table calls rounds (round + 1) r.buf r.kernel).map
              (.after [answer (print round) table.lines req])).map
              (.after (r.printed.map .prompt))) =
            ((dialogue calls rounds r.buf r.kernel).map fun d =>
              { d with requests := (r.printed, req) :: d.requests }).map
              (Dialogue.session print table.lines round) := by
        rw [hnext, Option.map_map, Option.map_map, Option.map_map]
        refine congrArg (fun f => Option.map f _) (funext fun d => ?_)
        exact (after_after _ _ _).trans (session_cons _ _ _ _ _ _).symm
      cases hnum : strToLong (cString r.line) with
      | none => exact hrest .notNumber
      | some num =>
        dsimp only
        by_cases hzero : num = 0
        · rw [if_pos hzero, if_pos hzero]
          simp [Session.after, Dialogue.session, Ending.shown, answers]
        by_cases hneg : num < 0
        · rw [if_neg hzero, if_neg hzero, if_pos hneg, if_pos hneg]
          exact hrest .notPositive
        rw [if_neg hzero, if_neg hzero, if_neg hneg, if_neg hneg, getLine_eq htable]
        have hline := hrest (.line (num - 1).toNat)
        rw [answer] at hline
        cases hget : table.lines[(num - 1).toNat]? with
        | none =>
          rw [hget] at hline
          exact hline
        | some line =>
          rw [hget] at hline
          dsimp only
          rw [hprint round line (List.mem_of_getElem? hget)]
          exact hline

/-! ### What is entered -/

/-- The requests of the strings up to the one that ends the session. -/
def requestsOf : List (List UInt8) → List Request
  | [] => []
  | str :: strs =>
    match request str with
    | none => []
    | some req => req :: requestsOf strs

/-- **Every dialogue ends**, whatever the kernel does: the bytes and the results of `read` that are
left bound the rounds, and the calls of `read_line` in each of them. -/
theorem exists_dialogue {buf : Buffer} {k : Kernel} (hcalls : supply buf k < calls)
    (hrounds : supply buf k < rounds) : ∃ d, dialogue calls rounds buf k = some d := by
  induction rounds generalizing buf k with
  | zero => exact absurd hrounds (Nat.not_lt_zero _)
  | succ rounds ih =>
    obtain ⟨r, hr, hnext⟩ := exists_inputLoop (show 2 ≤ inputSize by decide) hcalls false [prompt]
    rw [dialogue, inputValidLine, hr, Option.bind_some]
    split_ifs with heof hfail htimeout
    · exact ⟨_, rfl⟩
    · exact ⟨_, rfl⟩
    · exact ⟨_, rfl⟩
    · cases request (cString r.line) with
      | none => exact ⟨_, rfl⟩
      | some req =>
        have hless := hnext.resolve_left fun hends => by
          rcases hends with h | h | h
          · exact hfail h
          · exact heof h
          · exact htimeout h
        obtain ⟨d, hd⟩ := ih (hless.trans hcalls) (hless.trans_le (Nat.le_of_lt_succ hrounds))
        exact ⟨_, by rw [hd]; rfl⟩

/-- **The dialogue** is determined by the lines that are entered, if nothing fails and no line takes
five seconds. -/
theorem Source.dialogue {buf : Buffer} {k : Kernel} {lines : List (List UInt8)}
    (h : Source buf k (textOf lines)) (hlines : ∀ l ∈ lines, newline ∉ l)
    (hcalls : (textOf lines).length < calls) (hrounds : (textOf lines).length < rounds) :
    ∃ d, dialogue calls rounds buf k = some d ∧ d.ending = .quit ∧
      d.requests.map Prod.snd = requestsOf ((accepted inputSize false lines).map cString) := by
  induction rounds generalizing buf k lines with
  | zero => exact absurd hrounds (Nat.not_lt_zero _)
  | succ rounds ih =>
    obtain ⟨r, hr, hnext⟩ := h.inputLoop (show 3 ≤ inputSize by decide) hlines hcalls false [prompt]
    rw [File.dialogue, inputValidLine, hr, accepted_eq, Option.bind_some]
    cases heq : nextLine inputSize false lines with
    | none =>
      rw [heq] at hnext
      rw [if_pos hnext]
      exact ⟨_, rfl, rfl, rfl⟩
    | some next =>
      obtain ⟨l, ls⟩ := next
      rw [heq] at hnext
      obtain ⟨hret, hline, h'⟩ := hnext
      obtain ⟨pre, rfl⟩ := eq_append_of_nextLine heq
      have hlt := length_textOf_lt pre l ls
      obtain ⟨d, hd, hending, hrequests⟩ :=
        ih h' (fun l' hl' => hlines l' (by simp [hl'])) (by omega) (by omega)
      have heof : ¬ r.ret = rlEof := by rw [hret]; decide
      have hfail : ¬ r.ret = rlFail := by rw [hret]; decide
      have htimeout : ¬ r.ret = rlTimeout := by rw [hret]; decide
      rw [if_neg heof, if_neg hfail, if_neg htimeout, hline, cString_append_zero, List.map_cons,
        requestsOf, hd]
      cases request (cString l) with
      | none => exact ⟨_, rfl, rfl, rfl⟩
      | some req => exact ⟨_, rfl, hending, congrArg (req :: ·) hrequests⟩

/-- Whether it is no text of `input_valid_line`. -/
def Shown.isReply : Shown → Bool
  | .prompt _ => false
  | _ => true

/-- What a session shows, without the texts of `input_valid_line`. -/
def Session.replies (s : Session) : List Shown := s.shown.filter Shown.isReply

theorem filter_isReply_prompts (prompts : List String) :
    (prompts.map Shown.prompt).filter Shown.isReply = [] := by
  refine List.filter_eq_nil_iff.mpr fun shown h => ?_
  obtain ⟨text, -, rfl⟩ := List.mem_map.mp h
  exact Bool.false_ne_true

theorem isReply_answer (print : Line → List UInt8) (lines : List Line) (req : Request) :
    (answer print lines req).isReply = true := by
  cases req with
  | notNumber => rfl
  | notPositive => rfl
  | line n =>
    rw [answer]
    cases lines[n]? <;> rfl

/-- When a line is printed in the same way in every round, the replies of a session that is not
left to a timeout are those to its requests. -/
theorem replies_session (print : Line → List UInt8) (lines : List Line) (round : ℕ) {d : Dialogue}
    (hending : d.ending = .quit) :
    (d.session (fun _ => print) lines round).replies =
      (d.requests.map Prod.snd).map (answer print lines) := by
  obtain ⟨requests, prompts, ending⟩ := d
  obtain rfl := hending
  induction requests generalizing round with
  | nil =>
    rw [Session.replies, Dialogue.session, Ending.shown, answers, List.append_nil, List.nil_append,
      filter_isReply_prompts]
    rfl
  | cons r reqs ih =>
    obtain ⟨ps, req⟩ := r
    have hcons := session_cons (fun _ => print) lines round ps req ⟨reqs, prompts, .quit⟩
    have hreply := isReply_answer print lines req
    rw [hcons, Session.replies, Session.after, List.filter_append, List.filter_append,
      filter_isReply_prompts, List.nil_append, List.filter_cons_of_pos hreply, List.filter_nil]
    exact congrArg (answer print lines req :: ·) (ih (round + 1))

end OsTasks.File
