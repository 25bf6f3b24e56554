import Mathlib.Algebra.Field.Rat
import Mathlib.Algebra.GroupWithZero.Basic
import Mathlib.Data.List.TakeWhile
import Mathlib.Tactic.FieldSimp
import Mathlib.Tactic.Ring

/-!
# Decimal literals

The rational number that a decimal literal stands for: a minus sign or none, digits around a
point, a power of ten behind an `e`. `IsLiteral.magnitude_eq` gives the value of a literal from
its parts, and zeros at the end of its decimals do not change it (`scaled_append_zeros`).
-/

namespace TallerII.Lib.Literal

/-- Digits alone. -/
def natural (digits : List Char) : Option Nat :=
  if digits ≠ [] ∧ digits.all Char.isDigit then some (Nat.ofDigitChars 10 digits 0) else none

/-- Digits behind a sign or none. -/
def integer : List Char → Option Int
  | '-' :: digits => (natural digits).map fun n : Nat => -(n : Int)
  | '+' :: digits => (natural digits).map Int.ofNat
  | digits => (natural digits).map Int.ofNat

/-- The power of ten at the end of a literal. -/
def exponent : List Char → Option Int
  | [] => some 0
  | c :: rest => if c = 'e' ∨ c = 'E' then integer rest else none

/-- The digits behind a point, and what is behind them. -/
def fraction : List Char → List Char × List Char
  | '.' :: rest => (rest.takeWhile Char.isDigit, rest.dropWhile Char.isDigit)
  | rest => ([], rest)

/-- Digits with a point in front of the last ones, times a power of ten. -/
def scaled (whole decimals : List Char) (power : Int) : ℚ :=
  Nat.ofDigitChars 10 (whole ++ decimals) 0 * 10 ^ (power - decimals.length)

/-- The value of a literal without a sign. -/
def magnitude (text : List Char) : Option ℚ :=
  let whole := text.takeWhile Char.isDigit
  let (decimals, rest) := fraction (text.dropWhile Char.isDigit)
  if whole ++ decimals = [] then none else (exponent rest).map (scaled whole decimals)

/-- The value of a literal. -/
def value : List Char → Option ℚ
  | '-' :: rest => (magnitude rest).map (-·)
  | text => magnitude text

/-! ## The value from the parts -/

/-- Decimals with the point in front of them, or nothing when there are none. -/
def pointed (decimals : List Char) : List Char :=
  if decimals = [] then [] else '.' :: decimals

/-- Digits denote a number. -/
theorem natural_eq {digits : List Char} (hne : digits ≠ [])
    (hdigits : ∀ c ∈ digits, c.isDigit = true) :
    natural digits = some (Nat.ofDigitChars 10 digits 0) :=
  if_pos ⟨hne, List.all_eq_true.mpr hdigits⟩

/-- What denotes a natural number are digits. -/
theorem natural_parts {digits : List Char} {n : Nat} (h : natural digits = some n) :
    digits ≠ [] ∧ (∀ c ∈ digits, c.isDigit = true) ∧ n = Nat.ofDigitChars 10 digits 0 := by
  rw [natural] at h
  split at h
  · rename_i hdigits
    exact ⟨hdigits.1, List.all_eq_true.mp hdigits.2, (Option.some.inj h).symm⟩
  · cases h

/-- Neither a digit nor a point begins what has an exponent. -/
theorem exponent_head {tail : List Char} {power : Int} (h : exponent tail = some power) :
    ∀ c ∈ tail.head?, c = 'e' ∨ c = 'E' := by
  intro c hc
  cases tail with
  | nil => cases hc
  | cons first rest =>
      obtain rfl : first = c := Option.some.inj hc
      rw [exponent] at h
      split at h
      · assumption
      · cases h

/-- The digits at the front of a text end at the first other character. -/
theorem takeWhile_digits {digits rest : List Char} (hdigits : ∀ c ∈ digits, c.isDigit = true)
    (hrest : ∀ c ∈ rest.head?, c.isDigit = false) :
    (digits ++ rest).takeWhile Char.isDigit = digits ∧ (digits ++ rest).dropWhile Char.isDigit
      = rest := by
  rw [List.takeWhile_append_of_pos hdigits, List.dropWhile_append_of_pos hdigits]
  cases rest with
  | nil => simp
  | cons c rest =>
      have hc : c.isDigit = false := hrest c rfl
      simp [hc]

/-- The literals without a sign, from their parts. -/
inductive IsLiteral : List Char → ℚ → Prop where
  | parts {whole decimals tail : List Char} {power : Int} (hne : whole ≠ [])
      (hwhole : ∀ c ∈ whole, c.isDigit = true) (hdecimals : ∀ c ∈ decimals, c.isDigit = true)
      (htail : exponent tail = some power) :
      IsLiteral (whole ++ (pointed decimals ++ tail)) (scaled whole decimals power)

/-- A literal denotes its value. -/
theorem IsLiteral.magnitude_eq {text : List Char} {q : ℚ} (h : IsLiteral text q) :
    magnitude text = some q := by
  obtain @⟨whole, decimals, tail, power, hne, hwhole, hdecimals, htail⟩ := h
  have hhead : ∀ c ∈ tail.head?, c.isDigit = false ∧ c ≠ '.' := by
    intro c hc
    rcases exponent_head htail c hc with rfl | rfl <;> exact ⟨rfl, by decide⟩
  have hrest : fraction (pointed decimals ++ tail) = (decimals, tail) := by
    by_cases hnil : decimals = []
    · subst hnil
      rw [pointed, if_pos rfl, List.nil_append, fraction]
      rintro rest rfl
      exact (hhead '.' rfl).2 rfl
    · obtain ⟨htake, hdrop⟩ := takeWhile_digits hdecimals fun c hc => (hhead c hc).1
      rw [pointed, if_neg hnil, List.cons_append, fraction, htake, hdrop]
  have hpointed : ∀ c ∈ (pointed decimals ++ tail).head?, c.isDigit = false := by
    intro c hc
    by_cases hnil : decimals = []
    · rw [pointed, if_pos hnil, List.nil_append] at hc
      exact (hhead c hc).1
    · rw [pointed, if_neg hnil] at hc
      obtain rfl : '.' = c := Option.some.inj hc
      rfl
  obtain ⟨htake, hdrop⟩ := takeWhile_digits hwhole hpointed
  rw [magnitude, htake, hdrop, hrest]
  dsimp only
  rw [if_neg (by simp [hne]), htail, Option.map_some]

/-- Without a sign the value is the magnitude. -/
theorem value_of_head {text : List Char} (h : text.head? ≠ some '-') :
    value text = magnitude text := by
  rw [value]
  rintro rest rfl
  exact h rfl

/-- A literal begins with a digit. -/
theorem IsLiteral.exists_digit {text : List Char} {q : ℚ} (h : IsLiteral text q) :
    ∃ digit rest, text = digit :: rest ∧ digit.isDigit = true := by
  obtain @⟨whole, decimals, tail, power, hne, hwhole, hdecimals, htail⟩ := h
  obtain ⟨digit, digits, rfl⟩ := List.exists_cons_of_ne_nil hne
  exact ⟨digit, _, rfl, hwhole digit List.mem_cons_self⟩

/-- A literal is not empty. -/
theorem IsLiteral.ne_nil {text : List Char} {q : ℚ} (h : IsLiteral text q) : text ≠ [] := by
  obtain ⟨digit, rest, rfl, -⟩ := h.exists_digit
  exact List.cons_ne_nil _ _

/-- Digits alone are a literal. -/
theorem isLiteral_natural {digits : List Char} {n : Nat} (h : natural digits = some n) :
    IsLiteral digits n := by
  obtain ⟨hne, hdigits, rfl⟩ := natural_parts h
  have hparts := @IsLiteral.parts digits [] [] 0 hne hdigits (by simp) rfl
  have hvalue : scaled digits [] 0 = Nat.ofDigitChars 10 digits 0 := by simp [scaled]
  rwa [hvalue, show pointed [] = [] from rfl, List.append_nil, List.append_nil] at hparts

/-- Zeros behind the decimals change nothing. -/
theorem scaled_append_zeros (whole decimals : List Char) (count : Nat) (power : Int) :
    scaled whole (decimals ++ List.replicate count '0') power = scaled whole decimals power := by
  have hten : (10 : ℚ) ≠ 0 := by norm_num
  rw [scaled, scaled, ← List.append_assoc, Nat.ofDigitChars_append,
    Nat.ofDigitChars_replicate_zero,
    List.length_append, List.length_replicate,
    show power - ((decimals.length + count : Nat) : Int)
        = power - decimals.length - count by omega,
    zpow_sub₀ hten _ (count : Int), zpow_natCast, Nat.cast_mul, Nat.cast_pow, Nat.cast_ofNat]
  field_simp

end TallerII.Lib.Literal
