import Mathlib.Data.List.TakeWhile
import Mathlib.Data.Nat.Digits.Lemmas
import Mathlib.Data.UInt

/-!
# Decimal numerals

A numeral is a sequence of digits, with a sign and white space in front of it if there are any.
`strtol` takes the longest numeral at the beginning of a string of bytes and brings its value into a
range; a string that does not begin with a numeral is left as it is and gives zero.

## Main definitions

* `digitsValue`, `decimal`: the value of digits, and the digits of a number.
* `Numeral`: white space, a sign and digits.
* `strtol`: the function of the C library, with the base 10.

## Main results

* `strtol_append`, `exists_numeral`: what it makes of any string.
* `digitsValue_decimal`, `length_decimal_le_iff`: the digits of a number.
-/

namespace OsTasks

/-! ### Digits -/

/-- A byte of white space. -/
def IsSpace (b : UInt8) : Prop := b = 0x20 ∨ 0x09 ≤ b ∧ b ≤ 0x0D

instance (b : UInt8) : Decidable (IsSpace b) := inferInstanceAs (Decidable (_ ∨ _))

/-- A digit. -/
def IsDigit (b : UInt8) : Prop := 0x30 ≤ b ∧ b ≤ 0x39

instance (b : UInt8) : Decidable (IsDigit b) := inferInstanceAs (Decidable (_ ∧ _))

/-- The value of some digits. -/
def digitsValue (ds : List UInt8) : ℕ := ds.foldl (fun n b => 10 * n + (b.toNat - 0x30)) 0

/-- The digits of a number, without leading zeros. -/
def decimal (n : ℕ) : List UInt8 :=
  if n = 0 then [0x30] else (Nat.digits 10 n).reverse.map fun d => UInt8.ofNat (0x30 + d)

/-- `+`. -/
def plus : UInt8 := 0x2B

/-- `-`. -/
def minus : UInt8 := 0x2D

theorem not_isDigit_of_isSpace {b : UInt8} (h : IsSpace b) : ¬ IsDigit b := by
  rintro ⟨hlow, -⟩
  rw [UInt8.le_iff_toNat_le] at hlow
  rcases h with rfl | ⟨-, hhigh⟩
  · exact absurd hlow (by decide)
  · rw [UInt8.le_iff_toNat_le] at hhigh
    exact absurd (hlow.trans hhigh) (by decide)

theorem digitsValue_eq_ofDigits (ds : List UInt8) :
    digitsValue ds = Nat.ofDigits 10 (ds.reverse.map fun b => b.toNat - 0x30) := by
  rw [digitsValue, List.foldl_eq_foldr_reverse, Nat.ofDigits_eq_foldr, List.foldr_map]
  refine congrArg (fun f => List.foldr f 0 ds.reverse) (funext fun b => funext fun n => ?_)
  exact Nat.add_comm _ _

/-- The byte of a digit below ten. -/
theorem isDigit_ofNat {d : ℕ} (h : d < 10) :
    IsDigit (UInt8.ofNat (0x30 + d)) ∧ (UInt8.ofNat (0x30 + d)).toNat - 0x30 = d := by
  have hbyte : (UInt8.ofNat (0x30 + d)).toNat = 0x30 + d := by
    rw [UInt8.toNat_ofNat']
    exact Nat.mod_eq_of_lt (by omega)
  refine ⟨⟨?_, ?_⟩, by omega⟩
  · rw [UInt8.le_iff_toNat_le, hbyte]
    exact Nat.le_add_right _ _
  · rw [UInt8.le_iff_toNat_le, hbyte]
    exact Nat.add_le_add_left (Nat.le_of_lt_succ h) _

/-- **The digits of a number have its value.** -/
@[simp] theorem digitsValue_decimal (n : ℕ) : digitsValue (decimal n) = n := by
  rw [decimal]
  split_ifs with hn
  · rw [hn]
    rfl
  · have hdigits : ((Nat.digits 10 n).map fun d => (UInt8.ofNat (0x30 + d)).toNat - 0x30) =
        Nat.digits 10 n := by
      refine (List.map_congr_left fun d hd => ?_).trans (List.map_id _)
      exact (isDigit_ofNat (Nat.digits_lt_base (by decide) hd)).2
    rw [digitsValue_eq_ofDigits, ← List.map_reverse, List.reverse_reverse, List.map_map]
    exact (congrArg (Nat.ofDigits 10) hdigits).trans (Nat.ofDigits_digits 10 n)

theorem isDigit_of_mem_decimal {n : ℕ} {b : UInt8} (h : b ∈ decimal n) : IsDigit b := by
  rw [decimal] at h
  split_ifs at h with hn
  · rw [List.mem_singleton.mp h]
    decide
  · obtain ⟨d, hd, rfl⟩ := List.mem_map.mp h
    exact (isDigit_ofNat (Nat.digits_lt_base (by decide) (List.mem_reverse.mp hd))).1

theorem decimal_ne_nil (n : ℕ) : decimal n ≠ [] := by
  rw [decimal]
  split_ifs with hn
  · exact List.cons_ne_nil _ _
  · rw [Ne, List.map_eq_nil_iff, List.reverse_eq_nil_iff]
    exact Nat.digits_ne_nil_iff_ne_zero.mpr hn

/-- How many digits a number has. -/
theorem length_decimal_le_iff {k : ℕ} (hk : 0 < k) (n : ℕ) :
    (decimal n).length ≤ k ↔ n < 10 ^ k := by
  rw [decimal]
  split_ifs with hn
  · rw [hn]
    exact iff_of_true hk (Nat.pow_pos (by decide))
  · rw [List.length_map, List.length_reverse]
    exact Nat.digits_length_le_iff (by decide) n

/-! ### Numerals -/

/-- The sign of a numeral, if it has one. -/
inductive Sign
  | none
  | plus
  | minus
  deriving DecidableEq

/-- The bytes of a sign. -/
def Sign.bytes : Sign → List UInt8
  | .none => []
  | .plus => [OsTasks.plus]
  | .minus => [OsTasks.minus]

/-- The number with a sign. -/
def Sign.apply : Sign → ℕ → ℤ
  | .minus, n => -n
  | _, n => n

/-- White space, a sign and digits. -/
structure Numeral where
  blanks : List UInt8
  sign : Sign
  digits : List UInt8
  isSpace : ∀ b ∈ blanks, IsSpace b
  isDigit : ∀ b ∈ digits, IsDigit b
  ne_nil : digits ≠ []

def Numeral.bytes (n : Numeral) : List UInt8 := n.blanks ++ (n.sign.bytes ++ n.digits)

def Numeral.value (n : Numeral) : ℤ := n.sign.apply (digitsValue n.digits)

/-- The numeral of an integer, without white space and without `+`. -/
def Numeral.ofInt (v : ℤ) : Numeral where
  blanks := []
  sign := if v < 0 then .minus else .none
  digits := decimal v.natAbs
  isSpace := fun _ h => absurd h List.not_mem_nil
  isDigit := fun _ h => isDigit_of_mem_decimal h
  ne_nil := decimal_ne_nil _

@[simp] theorem value_ofInt (v : ℤ) : (Numeral.ofInt v).value = v := by
  rw [Numeral.value, Numeral.ofInt]
  dsimp only
  rw [digitsValue_decimal]
  split_ifs with hv
  · exact (congrArg Neg.neg (Int.ofNat_natAbs_of_nonpos (Int.le_of_lt hv))).trans (Int.neg_neg v)
  · exact Int.natAbs_of_nonneg (Int.not_lt.mp hv)

/-- What `strtol` makes of a string: the value, the bytes that it leaves, and whether the value is
out of range. -/
structure Integer where
  value : ℤ
  rest : List UInt8
  range : Bool
  deriving DecidableEq

/-- A value brought into a range. -/
def Integer.clamp (lo hi v : ℤ) (rest : List UInt8) : Integer :=
  if v < lo then ⟨lo, rest, true⟩ else if hi < v then ⟨hi, rest, true⟩ else ⟨v, rest, false⟩

/-- `strtol` for the base 10 and the numbers from `lo` to `hi`. -/
def strtol (lo hi : ℤ) (s : List UInt8) : Integer :=
  let body := s.dropWhile (IsSpace ·)
  let sign : Sign :=
    if body.head? = some plus then .plus else if body.head? = some minus then .minus else .none
  let digits := body.drop sign.bytes.length
  let run := digits.takeWhile (IsDigit ·)
  if run = [] then ⟨0, s, false⟩
  else .clamp lo hi (sign.apply (digitsValue run)) (digits.dropWhile (IsDigit ·))

variable {lo hi v : ℤ} {rest : List UInt8}

theorem takeWhile_isDigit {ds : List UInt8} (h : ∀ b ∈ ds, IsDigit b)
    (hrest : ∀ b ∈ rest.head?, ¬ IsDigit b) :
    (ds ++ rest).takeWhile (IsDigit ·) = ds ∧ (ds ++ rest).dropWhile (IsDigit ·) = rest := by
  have hall : ∀ b ∈ ds, decide (IsDigit b) = true := fun b hb => decide_eq_true (h b hb)
  rw [List.takeWhile_append_of_pos hall, List.dropWhile_append_of_pos hall]
  cases rest with
  | nil => simp
  | cons b bs =>
    have hb : ¬ IsDigit b := hrest b rfl
    simp [hb]

/-- Behind white space, the first byte of a numeral is a sign or a digit. -/
theorem dropWhile_isSpace {blanks body : List UInt8} (h : ∀ b ∈ blanks, IsSpace b)
    (hbody : ∀ b ∈ body.head?, ¬ IsSpace b) : (blanks ++ body).dropWhile (IsSpace ·) = body := by
  rw [List.dropWhile_append_of_pos fun b hb => decide_eq_true (h b hb)]
  cases body with
  | nil => rfl
  | cons b bs =>
    have hb : ¬ IsSpace b := hbody b rfl
    simp [hb]

/-- **A numeral is read to its end.** -/
theorem strtol_append (n : Numeral) (hrest : ∀ b ∈ rest.head?, ¬ IsDigit b) (lo hi : ℤ) :
    strtol lo hi (n.bytes ++ rest) = .clamp lo hi n.value rest := by
  obtain ⟨d, ds, hds⟩ := List.exists_cons_of_ne_nil n.ne_nil
  have hd : IsDigit d := n.isDigit d (hds ▸ List.mem_cons_self)
  have hsign : ∀ b ∈ (n.sign.bytes ++ (n.digits ++ rest)).head?, ¬ IsSpace b := by
    intro b hb hspace
    rw [hds] at hb
    cases hs : n.sign <;> rw [hs] at hb <;> obtain rfl := Option.some.inj hb
    · exact not_isDigit_of_isSpace hspace hd
    · exact absurd hspace (by decide)
    · exact absurd hspace (by decide)
  have hbody : (n.bytes ++ rest).dropWhile (IsSpace ·) = n.sign.bytes ++ (n.digits ++ rest) := by
    rw [Numeral.bytes, List.append_assoc, List.append_assoc]
    exact dropWhile_isSpace n.isSpace hsign
  have hplus : d ≠ plus := fun h => absurd (h ▸ hd) (by decide)
  have hminus : d ≠ minus := fun h => absurd (h ▸ hd) (by decide)
  have hread : (if (n.sign.bytes ++ (n.digits ++ rest)).head? = some plus then Sign.plus
      else if (n.sign.bytes ++ (n.digits ++ rest)).head? = some minus then Sign.minus
      else Sign.none) = n.sign := by
    rw [hds]
    cases n.sign with
    | none => simp [Sign.bytes, hplus, hminus]
    | plus => rfl
    | minus => rfl
  obtain ⟨htake, hdrop⟩ := takeWhile_isDigit n.isDigit hrest
  rw [strtol, hbody, hread, List.drop_left, htake, hdrop, if_neg n.ne_nil]
  rfl

/-- **Every string.** It begins with a numeral that no digit follows, or it is left as it is. -/
theorem exists_numeral (s : List UInt8) :
    (∃ (n : Numeral) (rest : List UInt8), s = n.bytes ++ rest ∧ ∀ b ∈ rest.head?, ¬ IsDigit b) ∨
      ∀ lo hi, strtol lo hi s = ⟨0, s, false⟩ := by
  obtain ⟨sign, hsign⟩ : ∃ sign : Sign, sign =
      if (s.dropWhile (IsSpace ·)).head? = some plus then .plus
      else if (s.dropWhile (IsSpace ·)).head? = some minus then .minus else .none := ⟨_, rfl⟩
  obtain ⟨digits, hdigits⟩ : ∃ digits, digits =
      (s.dropWhile (IsSpace ·)).drop sign.bytes.length := ⟨_, rfl⟩
  by_cases hrun : digits.takeWhile (IsDigit ·) = []
  · refine .inr fun lo hi => ?_
    rw [strtol, ← hsign, ← hdigits, if_pos hrun]
  · have hbody : s.dropWhile (IsSpace ·) = sign.bytes ++ digits := by
      rw [hdigits]
      split_ifs at hsign with hplus hminus
      · obtain ⟨bs, hbs⟩ := List.head?_eq_some_iff.mp hplus
        rw [hsign, hbs]
        rfl
      · obtain ⟨bs, hbs⟩ := List.head?_eq_some_iff.mp hminus
        rw [hsign, hbs]
        rfl
      · rw [hsign]
        rfl
    refine .inl ⟨⟨s.takeWhile (IsSpace ·), sign, digits.takeWhile (IsDigit ·), fun b hb => ?_,
      fun b hb => ?_, hrun⟩, digits.dropWhile (IsDigit ·), ?_, fun b hb => ?_⟩
    · exact by simpa using List.mem_takeWhile_imp hb
    · exact by simpa using List.mem_takeWhile_imp hb
    · rw [Numeral.bytes, List.append_assoc, List.append_assoc, List.takeWhile_append_dropWhile,
        ← hbody, List.takeWhile_append_dropWhile]
    · have hnot := List.head?_dropWhile_not (fun b => decide (IsDigit b)) digits
      rw [Option.mem_def] at hb
      rw [hb] at hnot
      exact of_decide_eq_false hnot

/-- A numeral alone, without a byte behind it. -/
theorem strtol_bytes (n : Numeral) (lo hi : ℤ) :
    strtol lo hi n.bytes = .clamp lo hi n.value [] := by
  have hnone : ∀ b ∈ ([] : List UInt8).head?, ¬ IsDigit b := fun b hb => absurd hb (by simp)
  have h := strtol_append n hnone lo hi
  rwa [List.append_nil] at h

/-- A value is not changed exactly if it is in the range. -/
theorem clamp_eq_iff {w : ℤ} {rest' : List UInt8} :
    Integer.clamp lo hi v rest = ⟨w, rest', false⟩ ↔
      v = w ∧ rest = rest' ∧ lo ≤ v ∧ v ≤ hi := by
  rw [Integer.clamp]
  split_ifs with hlow hhigh
  · exact iff_of_false (by simp) fun h => by omega
  · exact iff_of_false (by simp) fun h => by omega
  · rw [Integer.mk.injEq]
    exact ⟨fun h => ⟨h.1, h.2.1, Int.not_lt.mp hlow, Int.not_lt.mp hhigh⟩,
      fun h => ⟨h.1, h.2.1, rfl⟩⟩

end OsTasks
