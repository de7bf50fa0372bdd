import Mathlib.Data.List.Chain
import OsTasks.File.ReadLine

/-!
# Valid input lines

`input_valid_line` asks for a line until it gets one that is not empty and fits. A longer line
comes from `read_line` in pieces; `too_long` says that a piece without a line break has been seen.
A piece that is a line break only is taken for an empty line, also when it is the end of a long
line. Then `too_long` stays set, and the next line that is not empty is refused with it.

## Main definitions

* `inputLoop`, `inputValidLine`, `inputLines`: the loops of the source, and the calls of `main`.
* `nextLine`, `accepted`: what the loops make of the lines of a text.
* `Valid`, `Swallows`: a line that fits, and one that the line in front of it spoils.

## Main results

* `Source.inputLoop`: a call returns the next accepted line.
* `inputLines_iff`: the texts of which the valid lines are returned.
-/

namespace OsTasks.File

/-! ### The loops -/

/-- The first text that `input_valid_line` prints. -/
def prompt : String := "Enter line number or 0 to quit\n"

/-- The text that it prints for a long line. -/
def tooLongText : String := "Input string is too long\n"

/-- Where a call of `input_valid_line` ends: its result, what is in the caller's array, what has
been printed, and the rest. -/
structure Input where
  ret : ℤ
  line : List UInt8
  printed : List String
  buf : Buffer
  kernel : Kernel

/-- Both loops of `input_valid_line`. The first argument counts the calls of `read_line`; there is
no result when there are more. -/
def inputLoop (size : ℕ) : ℕ → Bool → List String → Buffer → Kernel → Option Input
  | 0, _, _, _, _ => none
  | calls + 1, tooLong, printed, buf, k =>
    let r := readLine 5 size buf k
    let len := r.1.ret
    if len = rlFail ∨ len = rlEof ∨ len = rlTimeout then
      some ⟨len, r.1.res, printed, r.2.1, r.2.2⟩
    else if len = 1 then inputLoop size calls tooLong printed r.2.1 r.2.2
    else if r.1.res[(len - 1).toNat]? = some newline then
      if tooLong then
        inputLoop size calls false (printed ++ [tooLongText, prompt]) r.2.1 r.2.2
      else some ⟨0, r.1.res.set (len - 1).toNat 0, printed, r.2.1, r.2.2⟩
    else inputLoop size calls true printed r.2.1 r.2.2

/-- `input_valid_line`. -/
def inputValidLine (calls size : ℕ) (buf : Buffer) (k : Kernel) : Option Input :=
  inputLoop size calls false [prompt] buf k

/-- Calls of `input_valid_line` until one returns no line: its result, and the strings of the
others. The first argument counts the calls. -/
def inputLines (calls size : ℕ) : ℕ → Buffer → Kernel → Option (ℤ × List (List UInt8))
  | 0, _, _ => none
  | n + 1, buf, k =>
    match inputValidLine calls size buf k with
    | none => none
    | some r =>
      if r.ret = 0 then
        (inputLines calls size n r.buf r.kernel).map fun rs => (rs.1, cString r.line :: rs.2)
      else some (r.ret, [])

/-! ### The lines of a text -/

/-- The text that has these lines, each with its line break. -/
def textOf (lines : List (List UInt8)) : List UInt8 := lines.flatMap (· ++ [newline])

@[simp] theorem textOf_nil : textOf [] = [] := rfl

@[simp] theorem textOf_cons (l : List UInt8) (ls : List (List UInt8)) :
    textOf (l :: ls) = l ++ newline :: textOf ls := by
  rw [textOf, List.flatMap_cons, List.append_assoc]
  rfl

theorem length_textOf_lt (pre : List (List UInt8)) (l : List UInt8) (ls : List (List UInt8)) :
    (textOf ls).length < (textOf (pre ++ l :: ls)).length := by
  have hsplit : textOf (pre ++ l :: ls) = textOf pre ++ textOf (l :: ls) := List.flatMap_append
  rw [hsplit, textOf_cons, List.length_append, List.length_append, List.length_cons]
  omega

/-- The line that a call returns, if it begins at these lines, and the lines behind it. -/
def nextLine (size : ℕ) : Bool → List (List UInt8) → Option (List UInt8 × List (List UInt8))
  | _, [] => none
  | tooLong, l :: ls =>
    if l = [] then nextLine size tooLong ls
    else if size - 1 ∣ l.length then nextLine size true ls
    else if tooLong = false ∧ l.length < size - 1 then some (l, ls)
    else nextLine size false ls

/-- The lines that the calls return. -/
def accepted (size : ℕ) : Bool → List (List UInt8) → List (List UInt8)
  | _, [] => []
  | tooLong, l :: ls =>
    if l = [] then accepted size tooLong ls
    else if size - 1 ∣ l.length then accepted size true ls
    else if tooLong = false ∧ l.length < size - 1 then l :: accepted size false ls
    else accepted size false ls

variable {size calls : ℕ} {buf : Buffer} {k : Kernel} {l : List UInt8} {ls : List (List UInt8)}

/-- The accepted lines are returned one by one. -/
theorem accepted_eq (size : ℕ) (tooLong : Bool) (ls : List (List UInt8)) :
    accepted size tooLong ls =
      match nextLine size tooLong ls with
      | none => []
      | some (l, ls') => l :: accepted size false ls' := by
  induction ls generalizing tooLong with
  | nil => rfl
  | cons l ls ih =>
    rw [accepted, nextLine]
    split_ifs
    · exact ih _
    · exact ih _
    · rfl
    · exact ih _

/-- The rest of a line that does not fit is treated like a line behind a long one. -/
theorem nextLine_of_long (hsize : 3 ≤ size) (hlen : size - 1 ≤ l.length) (tooLong : Bool) :
    nextLine size tooLong (l :: ls) = nextLine size true (l.drop (size - 1) :: ls) := by
  have hl : l ≠ [] := List.ne_nil_of_length_pos (by omega)
  have hdvd : size - 1 ∣ (l.drop (size - 1)).length ↔ size - 1 ∣ l.length := by
    rw [List.length_drop]
    exact (Nat.dvd_sub_iff_left hlen (Nat.dvd_refl _))
  have hshort : ¬ (tooLong = false ∧ l.length < size - 1) := fun h => by omega
  have hnot : ¬ (true = false ∧ (l.drop (size - 1)).length < size - 1) :=
    fun h => Bool.noConfusion h.1
  rw [nextLine, nextLine, if_neg hl, if_neg hshort, if_neg hnot]
  by_cases hrest : l.drop (size - 1) = []
  · have hd : size - 1 ∣ l.length := hdvd.mp (by rw [hrest]; exact Nat.dvd_zero _)
    rw [if_pos hrest, if_pos hd]
  · simp only [if_neg hrest, hdvd]

/-- What a call returns is a line in front of the rest. -/
theorem eq_append_of_nextLine {tooLong : Bool} {lines : List (List UInt8)}
    (h : nextLine size tooLong lines = some (l, ls)) : ∃ pre, lines = pre ++ l :: ls := by
  induction lines generalizing tooLong with
  | nil => exact absurd h (by rintro ⟨⟩)
  | cons l' ls' ih =>
    have hrest {b : Bool} (h : nextLine size b ls' = some (l, ls)) :
        ∃ pre, l' :: ls' = pre ++ l :: ls := by
      obtain ⟨pre, rfl⟩ := ih h
      exact ⟨l' :: pre, rfl⟩
    rw [nextLine] at h
    split_ifs at h
    · exact hrest h
    · exact hrest h
    · obtain ⟨rfl, rfl⟩ := Prod.mk.inj (Option.some.inj h)
      exact ⟨[], rfl⟩
    · exact hrest h

/-! ### What the loops do -/

/-- A piece that `read_line` has returned, of the bytes `bs` and the last byte `b`. -/
theorem inputLoop_piece {bs : List UInt8} {b : UInt8} {buf' : Buffer} {k' : Kernel}
    (h : readLine 5 size buf k = (⟨(bs.length : ℤ) + 1, bs ++ [b, 0]⟩, buf', k'))
    (tooLong : Bool) (printed : List String) :
    inputLoop size (calls + 1) tooLong printed buf k =
      if bs = [] then inputLoop size calls tooLong printed buf' k'
      else if b = newline then
        if tooLong then inputLoop size calls false (printed ++ [tooLongText, prompt]) buf' k'
        else some ⟨0, bs ++ [0, 0], printed, buf', k'⟩
      else inputLoop size calls true printed buf' k' := by
  have herr : ¬ ((bs.length : ℤ) + 1 = rlFail ∨ (bs.length : ℤ) + 1 = rlEof ∨
      (bs.length : ℤ) + 1 = rlTimeout) := by
    unfold rlFail rlEof rlTimeout
    omega
  have hone : (bs.length : ℤ) + 1 = 1 ↔ bs = [] := by
    rw [← List.length_eq_zero_iff]
    omega
  have hindex : ((bs.length : ℤ) + 1 - 1).toNat = bs.length := by omega
  have hlast : (bs ++ [b, 0])[bs.length]? = some b := by simp
  have hset : (bs ++ [b, 0]).set bs.length 0 = bs ++ [0, 0] := by simp
  rw [inputLoop, h]
  dsimp only
  rw [if_neg herr, hindex, hlast, hset]
  simp only [hone, Option.some_inj]

/-- The end of the file. -/
theorem inputLoop_eof {buf' : Buffer} {k' : Kernel}
    (h : readLine 5 size buf k = (⟨rlEof, []⟩, buf', k')) (tooLong : Bool)
    (printed : List String) :
    inputLoop size (calls + 1) tooLong printed buf k = some ⟨rlEof, [], printed, buf', k'⟩ := by
  rw [inputLoop, h]
  exact if_pos (.inr (.inl rfl))

/-- What `read_line` returns at the beginning of a line that fits. -/
theorem Source.readLine_short {xs : List UInt8} (h : Source buf k (l ++ newline :: xs))
    (hl : newline ∉ l) (hlen : l.length < size - 1) :
    ∃ buf' k', File.readLine 5 size buf k = (⟨(l.length : ℤ) + 1, l ++ [newline, 0]⟩, buf', k') ∧
      Source buf' k' xs := by
  obtain ⟨hline, hsource⟩ := h.readLine (show 2 ≤ size by omega) 5
  have hpiece : piece newline (size - 1) (l ++ newline :: xs) = l ++ [newline] := by
    rw [piece_line hl, if_pos hlen]
  have hcomplete : Complete newline (size - 1) (piece newline (size - 1) (l ++ newline :: xs)) := by
    rw [hpiece]
    exact .inr List.getLast?_concat
  have hdrop : (l ++ newline :: xs).drop (l ++ [newline]).length = xs := by
    rw [List.append_cons l newline xs, List.drop_left]
  rw [lineOf_of_complete (by simp) hcomplete, hpiece] at hline
  rw [hpiece, hdrop] at hsource
  refine ⟨_, _, Prod.ext (hline.trans ?_) rfl, hsource⟩
  simp

/-- What it returns at the beginning of a line that does not. -/
theorem Source.readLine_long {xs : List UInt8} (h : Source buf k (l ++ newline :: xs))
    (hl : newline ∉ l) (hsize : 2 ≤ size) (hlen : size - 1 ≤ l.length) :
    ∃ (bs : List UInt8) (b : UInt8) (buf' : Buffer) (k' : Kernel),
      File.readLine 5 size buf k = (⟨(bs.length : ℤ) + 1, bs ++ [b, 0]⟩, buf', k') ∧
      bs.length + 2 = size ∧ b ≠ newline ∧
      Source buf' k' (l.drop (size - 1) ++ newline :: xs) := by
  obtain ⟨hline, hsource⟩ := h.readLine hsize 5
  have hpiece : piece newline (size - 1) (l ++ newline :: xs) = l.take (size - 1) := by
    rw [piece_line hl, if_neg (by omega)]
  have htake : (l.take (size - 1)).length = size - 1 := List.length_take_of_le hlen
  have hcomplete : Complete newline (size - 1) (piece newline (size - 1) (l ++ newline :: xs)) := by
    rw [hpiece]
    exact .inl htake
  rw [lineOf_of_complete (by simp) hcomplete, hpiece] at hline
  rw [hpiece, htake, List.drop_append_of_le_length hlen] at hsource
  obtain ⟨bs, b, hbs⟩ := (List.eq_nil_or_concat' (l.take (size - 1))).resolve_left
    (List.ne_nil_of_length_pos (by omega))
  have hb : b ∈ l := List.mem_of_mem_take (hbs ▸ List.mem_concat_self)
  rw [hbs] at hline htake
  rw [List.length_append, List.length_singleton] at htake
  refine ⟨bs, b, _, _, Prod.ext (hline.trans ?_) rfl, by omega, fun hnewline => hl (hnewline ▸ hb),
    hsource⟩
  simp

/-- **A call of `input_valid_line` ends**, whatever the kernel does. -/
theorem exists_inputLoop (hsize : 2 ≤ size) (hcalls : supply buf k < calls) (tooLong : Bool)
    (printed : List String) :
    ∃ r, inputLoop size calls tooLong printed buf k = some r ∧
      (Ends r.ret ∨ supply r.buf r.kernel < supply buf k) := by
  induction calls generalizing tooLong printed buf k with
  | zero => exact absurd hcalls (Nat.not_lt_zero _)
  | succ calls ih =>
    rw [inputLoop]
    rcases supply_readLine hsize 5 buf k with hends | hless
    · exact ⟨_, if_pos hends, .inl hends⟩
    · -- something has been read
      have hnext (tooLong : Bool) (printed : List String) : ∃ r,
          inputLoop size calls tooLong printed (readLine 5 size buf k).2.1
            (readLine 5 size buf k).2.2 = some r ∧
            (Ends r.ret ∨ supply r.buf r.kernel < supply buf k) := by
        obtain ⟨r, hr, h⟩ := ih (hless.trans_le (Nat.le_of_lt_succ hcalls)) tooLong printed
        exact ⟨r, hr, h.imp id hless.trans'⟩
      split_ifs with hends
      · exact ⟨_, rfl, .inl hends⟩
      · exact hnext tooLong printed
      · exact hnext false _
      · exact ⟨_, rfl, .inr hless⟩
      · exact hnext true printed

/-- **A call of `input_valid_line`.** It returns the next line that is accepted, or reports the end
of the file. -/
theorem Source.inputLoop {lines : List (List UInt8)} (h : Source buf k (textOf lines))
    (hsize : 3 ≤ size) (hlines : ∀ l ∈ lines, newline ∉ l) (hcalls : (textOf lines).length < calls)
    (tooLong : Bool) (printed : List String) :
    ∃ r, inputLoop size calls tooLong printed buf k = some r ∧
      match nextLine size tooLong lines with
      | none => r.ret = rlEof
      | some (l, ls) => r.ret = 0 ∧ r.line = l ++ [0, 0] ∧ Source r.buf r.kernel (textOf ls) := by
  induction calls generalizing buf k lines tooLong printed with
  | zero => exact absurd hcalls (Nat.not_lt_zero _)
  | succ calls ih =>
    cases lines with
    | nil =>
      obtain ⟨hline, -⟩ := h.readLine (show 2 ≤ size by omega) 5
      exact ⟨_, inputLoop_eof (Prod.ext hline rfl) tooLong printed, rfl⟩
    | cons l ls =>
      obtain ⟨hl, hls⟩ := List.forall_mem_cons.mp hlines
      rw [textOf_cons] at h
      rw [textOf_cons, List.length_append, List.length_cons] at hcalls
      by_cases hlen : l.length < size - 1
      · obtain ⟨buf', k', hread, h'⟩ := h.readLine_short hl hlen
        have hrest := ih h' hls (by omega)
        have hdvd (hne : l ≠ []) : ¬ size - 1 ∣ l.length := fun hd => by
          have := Nat.le_of_dvd (List.length_pos_of_ne_nil hne) hd
          omega
        rw [inputLoop_piece hread, nextLine]
        by_cases hne : l = []
        · rw [if_pos hne, if_pos hne]
          exact hrest _ _
        · rw [if_neg hne, if_neg hne, if_pos rfl, if_neg (hdvd hne)]
          cases tooLong with
          | true =>
            rw [if_pos rfl, if_neg (fun hboth => Bool.noConfusion hboth.1)]
            exact hrest _ _
          | false =>
            rw [if_neg Bool.false_ne_true, if_pos ⟨rfl, hlen⟩]
            exact ⟨_, rfl, rfl, rfl, h'⟩
      · obtain ⟨bs, b, buf', k', hread, hbs, hb, h'⟩ :=
          h.readLine_long hl (show 2 ≤ size by omega) (Nat.le_of_not_lt hlen)
        have hne : bs ≠ [] := List.ne_nil_of_length_pos (by omega)
        have hdrop : ∀ l' ∈ l.drop (size - 1) :: ls, newline ∉ l' :=
          List.forall_mem_cons.mpr ⟨fun hmem => hl (List.mem_of_mem_drop hmem), hls⟩
        rw [inputLoop_piece hread, if_neg hne, if_neg hb,
          nextLine_of_long hsize (Nat.le_of_not_lt hlen)]
        refine ih (by rwa [textOf_cons]) hdrop ?_ _ _
        rw [textOf_cons, List.length_append, List.length_cons, List.length_drop]
        omega

/-- The calls until the end of the file. -/
theorem Source.inputLines {lines : List (List UInt8)} {n : ℕ} (h : Source buf k (textOf lines))
    (hsize : 3 ≤ size) (hlines : ∀ l ∈ lines, newline ∉ l) (hcalls : (textOf lines).length < calls)
    (hn : (textOf lines).length < n) :
    inputLines calls size n buf k = some (rlEof, (accepted size false lines).map cString) := by
  induction n generalizing buf k lines with
  | zero => exact absurd hn (Nat.not_lt_zero _)
  | succ n ih =>
    obtain ⟨r, hr, hnext⟩ := h.inputLoop hsize hlines hcalls false [prompt]
    rw [File.inputLines, inputValidLine, hr, accepted_eq]
    dsimp only
    cases heq : nextLine size false lines with
    | none =>
      rw [heq] at hnext
      rw [hnext]
      rfl
    | some next =>
      obtain ⟨l, ls⟩ := next
      rw [heq] at hnext
      obtain ⟨hret, hline, h'⟩ := hnext
      obtain ⟨pre, rfl⟩ := eq_append_of_nextLine heq
      have hlt := length_textOf_lt pre l ls
      have hrest := ih h' (fun l' hl' => hlines l' (by simp [hl'])) (by omega) (by omega)
      rw [if_pos hret, hrest, hline, cString_append_zero]
      rfl

/-! ### The valid lines -/

/-- A line that is not empty, and fits with its line break and the zero byte. -/
def Valid (size : ℕ) (l : List UInt8) : Prop := l ≠ [] ∧ l.length ≤ size - 2

instance (size : ℕ) (l : List UInt8) : Decidable (Valid size l) :=
  inferInstanceAs (Decidable (_ ∧ _))

/-- A line whose pieces all fill the array is followed by a valid one. -/
def Spoils (size : ℕ) (l l' : List UInt8) : Prop := size - 1 ∣ l.length ∧ Valid size l'

instance (size : ℕ) (l l' : List UInt8) : Decidable (Spoils size l l') :=
  inferInstanceAs (Decidable (_ ∧ _))

/-- The lines of a text that are not empty. -/
def filledLines (lines : List (List UInt8)) : List (List UInt8) := lines.filter (· ≠ [])

theorem filledLines_cons (hl : l ≠ []) (ls : List (List UInt8)) :
    filledLines (l :: ls) = l :: filledLines ls := List.filter_cons_of_pos (by simpa using hl)

theorem not_valid_of_dvd (hl : l ≠ []) (hsize : 3 ≤ size) (hdvd : size - 1 ∣ l.length) :
    ¬ Valid size l := by
  rintro ⟨-, hlen⟩
  have := Nat.le_of_dvd (List.length_pos_of_ne_nil hl) hdvd
  omega

/-- Only valid lines are accepted. -/
theorem accepted_sublist (hsize : 3 ≤ size) (tooLong : Bool) (lines : List (List UInt8)) :
    (accepted size tooLong lines).Sublist (lines.filter (Valid size ·)) := by
  induction lines generalizing tooLong with
  | nil => exact .slnil
  | cons l ls ih =>
    have hskip (b : Bool) : (accepted size b ls).Sublist ((l :: ls).filter (Valid size ·)) :=
      (ih b).trans ((List.sublist_cons_self l ls).filter _)
    rw [accepted]
    split_ifs with hne hdvd hshort
    · exact hskip _
    · exact hskip _
    · have hvalid : Valid size l := ⟨hne, by omega⟩
      rw [List.filter_cons_of_pos (by simpa using hvalid)]
      exact (ih _).cons_cons l
    · exact hskip _

/-- **The valid lines are accepted** exactly if no line that a call may take to be too long comes in
front of one of them. -/
theorem accepted_eq_iff (hsize : 3 ≤ size) (tooLong : Bool) (lines : List (List UInt8)) :
    accepted size tooLong lines = lines.filter (Valid size ·) ↔
      (tooLong = true → ∀ l ∈ (filledLines lines).head?, ¬ Valid size l) ∧
        (filledLines lines).IsChain fun l l' => ¬ Spoils size l l' := by
  induction lines generalizing tooLong with
  | nil => exact iff_of_true rfl ⟨fun _ => by rintro _ ⟨⟩, .nil⟩
  | cons l ls ih =>
    by_cases hne : l = []
    · have hvalid : ¬ Valid size l := fun h => h.1 hne
      have hfilled : filledLines (l :: ls) = filledLines ls :=
        List.filter_cons_of_neg (by simpa using hne)
      rw [accepted, if_pos hne, List.filter_cons_of_neg (by simpa using hvalid), hfilled]
      exact ih tooLong
    rw [accepted, if_neg hne, filledLines_cons hne, List.isChain_cons, List.head?_cons]
    by_cases hdvd : size - 1 ∣ l.length
    · -- the next line that is not empty is refused
      have hvalid := not_valid_of_dvd hne hsize hdvd
      rw [if_pos hdvd, List.filter_cons_of_neg (by simpa using hvalid), ih true]
      simp [Spoils, hdvd, hvalid]
    rw [if_neg hdvd]
    by_cases hvalid : Valid size l
    · have hshort : l.length < size - 1 := by
        have := hvalid.2
        omega
      rw [List.filter_cons_of_pos (by simpa using hvalid)]
      cases tooLong with
      | false =>
        rw [if_pos ⟨rfl, hshort⟩, List.cons_inj_right, ih false]
        simp [Spoils, hdvd]
      | true =>
        -- the line itself is refused
        rw [if_neg (fun h => Bool.noConfusion h.1)]
        have hlen := (accepted_sublist hsize false ls).length_le
        refine iff_of_false (fun heq => ?_) (fun h => h.1 rfl l rfl hvalid)
        rw [heq, List.length_cons] at hlen
        omega
    · have hshort : ¬ (tooLong = false ∧ l.length < size - 1) := fun h => hvalid ⟨hne, by omega⟩
      rw [if_neg hshort, List.filter_cons_of_neg (by simpa using hvalid), ih false]
      simp [Spoils, hdvd, hvalid]

/-- **The returned lines.** However the text is read, calls until the end of the file return exactly
its valid lines if none of these is the next line, empty ones apart, behind a line whose pieces all
fill the array, and none has a zero byte. -/
theorem inputLines_iff (size : ℕ) (hsize : 3 ≤ size) (mem : List UInt8)
    (lines : List (List UInt8)) (hlines : ∀ l ∈ lines, newline ∉ l)
    (d : Chunking mem.length (textOf lines)) :
    ∃ strings, (∀ calls n, (textOf lines).length < calls → (textOf lines).length < n →
        inputLines calls size n (makeBuf mem) (kernelOf d) = some (rlEof, strings)) ∧
      (strings = lines.filter (Valid size ·) ↔
        ((filledLines lines).IsChain fun l l' => ¬ Spoils size l l') ∧
          ∀ l ∈ lines, Valid size l → 0 ∉ l) := by
  have hsub := accepted_sublist hsize false lines
  have hacc := accepted_eq_iff hsize false lines
  refine ⟨(accepted size false lines).map cString, fun calls n hcalls hn =>
    (source_makeBuf d).inputLines hsize hlines hcalls hn, fun heq => ?_, fun ⟨hchain, hzero⟩ => ?_⟩
  · have hall : accepted size false lines = lines.filter (Valid size ·) := by
      refine hsub.eq_of_length ?_
      rw [← heq, List.length_map]
    refine ⟨(hacc.mp hall).2, fun l hl hvalid => ?_⟩
    rw [hall] at heq
    have hself := List.map_inj_left.mp (heq.trans (List.map_id _).symm)
    exact (cString_eq_self_iff l).mp (hself l (List.mem_filter.mpr ⟨hl, by simpa using hvalid⟩))
  · have hall := hacc.mpr ⟨fun h => Bool.noConfusion h, hchain⟩
    rw [hall]
    refine (List.map_congr_left fun l hl => ?_).trans (List.map_id _)
    obtain ⟨hmem, hvalid⟩ := List.mem_filter.mp hl
    exact (cString_eq_self_iff l).mpr (hzero l hmem (by simpa using hvalid))

/-- A long line that ends in the middle of a piece, an empty one, and a line of one byte. -/
def longLine : Chunking 4 (textOf [[97, 97, 97], [], [98]]) where
  chunks := [[97, 97], [97, 0x0A, 0x0A, 98], [0x0A]]
  ne_nil := by decide
  length_le := by decide
  flatten_eq := rfl

theorem inputLines_longLine :
    inputLines 8 3 8 (makeBuf [0, 0, 0, 0]) (kernelOf longLine) = some (rlEof, [[98]]) := by
  obtain ⟨strings, hcalls, hiff⟩ := inputLines_iff 3 (by decide) [0, 0, 0, 0]
    [[97, 97, 97], [], [98]] (by decide) longLine
  have hstrings := hiff.mpr (by decide)
  rw [hcalls 8 8 (by decide) (by decide), hstrings]
  rfl

/-- A line of 21 bytes and a line of one byte. -/
def spoiledLine : Chunking 1024 (textOf [List.replicate 21 97, [98]]) where
  chunks := [textOf [List.replicate 21 97, [98]]]
  ne_nil := by decide
  length_le := by decide
  flatten_eq := rfl

/-- The second line is valid, and is refused with the first one. -/
theorem inputLines_spoiledLine :
    inputLines 30 22 30 (makeBuf (List.replicate 1024 0))
      (kernelOf spoiledLine) = some (rlEof, []) ∧
      [List.replicate 21 97, [98]].filter (Valid 22 ·) = [[98]] := by
  constructor
  · decide +kernel
  · decide

end OsTasks.File
