import Mathlib.Data.Int.Log
import Mathlib.Data.Rat.Floor
import Mathlib.Tactic.FieldSimp
import Mathlib.Tactic.Linarith
import Mathlib.Tactic.Ring

/-!
# Binary numbers of a bounded precision

A format of binary floating numbers as a set of rationals, and rounding to a nearest one of them.
What is close enough to a number of the format is rounded to it (`Format.round_of_close`), so a
number is read back from its leading decimal digits when there are enough of them
(`Format.round_of_digits`).
-/

namespace TallerII.Lib.Binary

/-- A nearest integer, of two the even one. -/
def roundEven (x : ℚ) : Int :=
  if x - ⌊x⌋ < 1 / 2 then ⌊x⌋
  else if 1 / 2 < x - ⌊x⌋ then ⌊x⌋ + 1
  else if ⌊x⌋ % 2 = 0 then ⌊x⌋ else ⌊x⌋ + 1

/-- An integer that is nearer than one half is the one that is rounded to. -/
theorem roundEven_of_close {x : ℚ} {n : Int} (h : |x - n| < 1 / 2) : roundEven x = n := by
  obtain ⟨hlow, hhigh⟩ := abs_lt.mp h
  by_cases hle : (n : ℚ) ≤ x
  · have hfloor : ⌊x⌋ = n := Int.floor_eq_iff.mpr ⟨hle, by linarith⟩
    rw [roundEven, hfloor, if_pos (by linarith)]
  · have hfloor : ⌊x⌋ = n - 1 := by
      refine Int.floor_eq_iff.mpr ⟨?_, ?_⟩ <;> push_cast <;> linarith
    rw [roundEven, hfloor, if_neg (by push_cast; linarith), if_pos (by push_cast; linarith)]
    omega

/-- Rounding moves by one half at most. -/
theorem abs_roundEven_sub_le (x : ℚ) : |roundEven x - x| ≤ 1 / 2 := by
  have hlow : (⌊x⌋ : ℚ) ≤ x := Int.floor_le x
  have hhigh : x < ⌊x⌋ + 1 := Int.lt_floor_add_one x
  rw [abs_le]
  unfold roundEven
  split_ifs <;> refine ⟨?_, ?_⟩ <;> push_cast <;> linarith

/-- The mantissas have as many bits as the precision says; the exponents are those of the last
bit. -/
structure Format where
  precision : Nat
  minExponent : Int
  maxExponent : Int

namespace Format

variable (format : Format)

/-- The numbers of a format. -/
def IsNumber (q : ℚ) : Prop :=
  ∃ mantissa exponent : Int, |mantissa| < 2 ^ format.precision ∧ format.minExponent ≤ exponent ∧
    exponent ≤ format.maxExponent ∧ q = mantissa * 2 ^ exponent

/-- The exponent of the last bit that the format keeps. -/
def lastBit (x : ℚ) : Int :=
  max format.minExponent (Int.log 2 |x| + 1 - format.precision)

/-- The number that a nearest multiple of the last bit is, unless it is too large. -/
def round (x : ℚ) : Option ℚ :=
  let rounded : ℚ := roundEven (x / 2 ^ format.lastBit x) * 2 ^ format.lastBit x
  if |rounded| < 2 ^ (format.maxExponent + format.precision) then some rounded else none

variable {format}

/-- Zero is a number of every format. -/
theorem IsNumber.zero (h : format.minExponent ≤ format.maxExponent) : format.IsNumber 0 :=
  ⟨0, format.maxExponent, by simp, h, le_rfl, by simp⟩

/-- Integers of few bits are numbers. -/
theorem IsNumber.ofInt {n : Int} (hn : |n| < 2 ^ format.precision) (hmin : format.minExponent ≤ 0)
    (hmax : 0 ≤ format.maxExponent) : format.IsNumber n :=
  ⟨n, 0, hn, hmin, hmax, by simp⟩

/-- A number that is no integer has bits behind the point, and less than all of them before it. -/
theorem IsNumber.abs_lt {q : ℚ} (h : format.IsNumber q) (hint : ∀ n : Int, q ≠ n) :
    |q| * 2 < 2 ^ format.precision := by
  obtain ⟨mantissa, exponent, hmantissa, -, -, rfl⟩ := h
  have hneg : exponent < 0 := by
    by_contra hpos
    obtain ⟨k, rfl⟩ := Int.eq_ofNat_of_zero_le (not_lt.mp hpos)
    exact hint (mantissa * 2 ^ k) (by push_cast; rw [zpow_natCast])
  have hhalf : (2 : ℚ) ^ exponent ≤ 2 ^ (-1 : Int) := zpow_le_zpow_right₀ (by norm_num) (by omega)
  have hcast : |(mantissa : ℚ)| < 2 ^ format.precision := by exact_mod_cast hmantissa
  rw [abs_mul, abs_of_pos (zpow_pos (show (0 : ℚ) < 2 by norm_num) exponent)]
  calc |(mantissa : ℚ)| * 2 ^ exponent * 2
      ≤ |(mantissa : ℚ)| * 2 ^ (-1 : Int) * 2 := by
        have habs := abs_nonneg (mantissa : ℚ)
        nlinarith
    _ = |(mantissa : ℚ)| := by ring
    _ < 2 ^ format.precision := hcast

/-! ## Numbers and what is close to them -/

section Close

variable {x : ℚ} {mantissa exponent : Int}

/-- Being much closer to a multiple of a last bit than the size of that multiple. -/
def Close (precision : Nat) (x q : ℚ) : Prop :=
  |x - q| * 2 ^ (precision + 1) < |q|

/-- Nothing is close to zero. -/
theorem Close.ne_zero {precision : Nat} {q : ℚ} (h : Close precision x q) : q ≠ 0 := by
  rintro rfl
  rw [Close, abs_zero] at h
  have hnonneg : 0 ≤ |x - 0| * 2 ^ (precision + 1) := by positivity
  linarith

/-- Zero is close to nothing. -/
theorem Close.left_ne_zero {precision : Nat} {q : ℚ} (h : Close precision x q) : x ≠ 0 := by
  rintro rfl
  have hone : (1 : ℚ) ≤ 2 ^ (precision + 1) := one_le_pow₀ (by norm_num)
  have hnonneg := abs_nonneg q
  rw [Close, zero_sub, abs_neg] at h
  nlinarith

/-- The absolute value of a multiple of a power of two. -/
theorem abs_multiple (mantissa exponent : Int) :
    |(mantissa : ℚ) * 2 ^ exponent| = (|mantissa| : Int) * 2 ^ exponent := by
  rw [abs_mul, abs_of_pos (zpow_pos (show (0 : ℚ) < 2 by norm_num) exponent), Int.cast_abs]

/-- A number that something is close to has a mantissa. -/
theorem Close.one_le_abs {precision : Nat} (h : Close precision x (mantissa * 2 ^ exponent)) :
    (1 : ℚ) ≤ (|mantissa| : Int) := by
  have hzero : mantissa ≠ 0 := by
    rintro rfl
    exact h.ne_zero (by simp)
  exact_mod_cast Int.one_le_abs hzero

/-- Half of the last bit is further away than what is close. -/
theorem Close.abs_sub_lt {precision : Nat} (h : Close precision x (mantissa * 2 ^ exponent))
    (hmantissa : |mantissa| < 2 ^ precision) :
    |x - mantissa * 2 ^ exponent| < 2 ^ exponent / 2 := by
  have hunit : (0 : ℚ) < 2 ^ exponent := zpow_pos (by norm_num) exponent
  have hcast : ((|mantissa| : Int) : ℚ) < 2 ^ precision := by exact_mod_cast hmantissa
  rw [Close, abs_multiple] at h
  have hpower : (0 : ℚ) < 2 ^ precision := by positivity
  have hbound : |x - mantissa * 2 ^ exponent| * 2 ^ (precision + 1)
      < 2 ^ precision * 2 ^ exponent :=
    h.trans (mul_lt_mul_of_pos_right hcast hunit)
  rw [pow_succ] at hbound
  nlinarith

/-- No power of two lies between a number and what is close to it from above. -/
theorem Close.le_of_le {precision : Nat} (h : Close precision x (mantissa * 2 ^ exponent))
    (hmantissa : |mantissa| < 2 ^ precision) {power : Int} (hpower : 2 ^ power ≤ |x|) :
    2 ^ power ≤ |(mantissa : ℚ) * 2 ^ exponent| := by
  have hunit : (0 : ℚ) < 2 ^ exponent := zpow_pos (by norm_num) exponent
  have hdistance := h.abs_sub_lt hmantissa
  by_contra hlt
  rw [not_le, abs_multiple] at hlt
  have hapart := abs_sub_abs_le_abs_sub x (mantissa * 2 ^ exponent)
  rw [abs_multiple] at hapart
  rcases le_or_gt exponent power with hle | hgt
  · obtain ⟨k, rfl⟩ := Int.le.dest hle
    rw [zpow_add₀ (by norm_num), zpow_natCast] at hlt hpower
    have hint : |mantissa| + 1 ≤ 2 ^ k := by
      have : ((|mantissa| : Int) : ℚ) < 2 ^ k := by nlinarith
      exact_mod_cast this
    have hcast : ((|mantissa| : Int) : ℚ) + 1 ≤ 2 ^ k := by exact_mod_cast hint
    nlinarith
  · have hone := h.one_le_abs
    have hlarge : (2 : ℚ) ^ power < 2 ^ exponent := zpow_lt_zpow_right₀ (by norm_num) hgt
    nlinarith

/-- Nor does one from below. -/
theorem Close.le_of_lt {precision : Nat} (h : Close precision x (mantissa * 2 ^ exponent))
    (hmantissa : |mantissa| < 2 ^ precision) {power : Int} (hpower : |x| < 2 ^ power) :
    |(mantissa : ℚ) * 2 ^ exponent| ≤ 2 ^ power := by
  have hunit : (0 : ℚ) < 2 ^ exponent := zpow_pos (by norm_num) exponent
  have hdistance := h.abs_sub_lt hmantissa
  have hapart := abs_sub_abs_le_abs_sub ((mantissa : ℚ) * 2 ^ exponent) x
  rw [abs_sub_comm, abs_multiple] at hapart
  by_contra hlt
  rw [not_le, abs_multiple] at hlt
  rcases le_or_gt exponent power with hle | hgt
  · obtain ⟨k, rfl⟩ := Int.le.dest hle
    rw [zpow_add₀ (by norm_num), zpow_natCast] at hlt hpower
    have hint : 2 ^ k + 1 ≤ |mantissa| := by
      have : (2 : ℚ) ^ k < (|mantissa| : Int) := by nlinarith
      exact_mod_cast this
    have hcast : (2 : ℚ) ^ k + 1 ≤ (|mantissa| : Int) := by exact_mod_cast hint
    nlinarith
  · have hone := h.one_le_abs
    have hlarge : (2 : ℚ) ^ (power + 1) ≤ 2 ^ exponent :=
      zpow_le_zpow_right₀ (by norm_num) (by omega)
    rw [zpow_add_one₀ (by norm_num)] at hlarge
    nlinarith

end Close

/-- The last bit is small enough for the precision. -/
theorem abs_lt_lastBit (format : Format) (x : ℚ) :
    |x| < 2 ^ (format.lastBit x + format.precision) := by
  have hlog := Int.lt_zpow_succ_log_self (b := 2) (by norm_num) |x|
  refine hlog.trans_le (zpow_le_zpow_right₀ (by norm_num) ?_)
  unfold lastBit
  omega

/-- The last bit is not larger than it must be. -/
theorem lastBit_le (format : Format) {x : ℚ} (hx : x ≠ 0) :
    format.lastBit x = format.minExponent ∨
      (2 : ℚ) ^ (format.lastBit x + format.precision - 1) ≤ |x| := by
  rcases max_choice format.minExponent (Int.log 2 |x| + 1 - format.precision) with hmin | hlog
  · exact .inl hmin
  · refine .inr ?_
    rw [lastBit, hlog, show Int.log 2 |x| + 1 - format.precision + format.precision - 1
      = Int.log 2 |x| by omega]
    exact_mod_cast Int.zpow_log_le_self (b := 2) (by norm_num) (abs_pos.mpr hx)

/-- What is close to a number is rounded to it. -/
theorem round_of_close {x q : ℚ} (hq : format.IsNumber q) (hclose : Close format.precision x q) :
    format.round x = some q := by
  obtain ⟨mantissa, exponent, hmantissa, hmin, hmax, rfl⟩ := hq
  have hx := hclose.left_ne_zero
  have hunit : (0 : ℚ) < 2 ^ format.lastBit x := zpow_pos (by norm_num) _
  -- the last bit that is kept is one of the number
  have hle : format.lastBit x ≤ exponent := by
    rcases format.lastBit_le hx with heq | hpower
    · omega
    · have hbelow := hclose.le_of_le hmantissa hpower
      have hcast : ((|mantissa| : Int) : ℚ) < 2 ^ format.precision := by exact_mod_cast hmantissa
      have habove : |(mantissa : ℚ) * 2 ^ exponent| < 2 ^ (exponent + format.precision) := by
        rw [abs_multiple, zpow_add₀ (by norm_num), zpow_natCast, mul_comm ((2 : ℚ) ^ exponent)]
        exact mul_lt_mul_of_pos_right hcast (zpow_pos (by norm_num) exponent)
      have hpowers := (zpow_lt_zpow_iff_right₀ (show (1 : ℚ) < 2 by norm_num)).mp
        (hbelow.trans_lt habove)
      omega
  obtain ⟨k, hk⟩ := Int.le.dest hle
  -- and less than half of it is lost
  have hnear : |x - mantissa * 2 ^ exponent| < 2 ^ format.lastBit x / 2 := by
    have habove := hclose.le_of_lt hmantissa (format.abs_lt_lastBit x)
    rw [zpow_add₀ (by norm_num), zpow_natCast] at habove
    have hpow : (0 : ℚ) < 2 ^ format.precision := by positivity
    rw [Close, pow_succ] at hclose
    nlinarith
  have hrounded : roundEven (x / 2 ^ format.lastBit x) = mantissa * 2 ^ k := by
    refine roundEven_of_close ?_
    have hquotient : x / 2 ^ format.lastBit x - (mantissa * 2 ^ k : Int) =
        (x - mantissa * 2 ^ exponent) / 2 ^ format.lastBit x := by
      rw [← hk, zpow_add₀ (by norm_num), zpow_natCast]
      push_cast
      field_simp
    rw [hquotient, abs_div, abs_of_pos hunit, div_lt_iff₀ hunit]
    linarith
  have hvalue : ((mantissa * 2 ^ k : Int) : ℚ) * 2 ^ format.lastBit x
      = mantissa * 2 ^ exponent := by
    rw [← hk, zpow_add₀ (by norm_num), zpow_natCast]
    push_cast
    ring
  rw [round, hrounded, hvalue, if_pos]
  have hcast : ((|mantissa| : Int) : ℚ) < 2 ^ format.precision := by exact_mod_cast hmantissa
  rw [abs_multiple, zpow_add₀ (by norm_num), zpow_natCast,
    mul_comm ((2 : ℚ) ^ format.maxExponent)]
  have hexponent : (2 : ℚ) ^ exponent ≤ 2 ^ format.maxExponent :=
    zpow_le_zpow_right₀ (by norm_num) hmax
  calc ((|mantissa| : Int) : ℚ) * 2 ^ exponent
      < 2 ^ format.precision * 2 ^ exponent :=
        mul_lt_mul_of_pos_right hcast (zpow_pos (by norm_num) exponent)
    _ ≤ 2 ^ format.precision * 2 ^ format.maxExponent :=
        mul_le_mul_of_nonneg_left hexponent (by positivity)

/-- Zero is rounded to itself. -/
theorem round_zero (format : Format) : format.round 0 = some 0 := by
  have hzero : roundEven (0 : ℚ) = 0 := roundEven_of_close (by norm_num)
  have hlarge : (0 : ℚ) < 2 ^ (format.maxExponent + format.precision) := zpow_pos (by norm_num) _
  rw [round, zero_div, hzero, Int.cast_zero, zero_mul, abs_zero, if_pos hlarge]

/-- A number is rounded to itself. -/
theorem round_of_isNumber {q : ℚ} (hq : format.IsNumber q) : format.round q = some q := by
  rcases eq_or_ne q 0 with rfl | hzero
  · exact format.round_zero
  · refine round_of_close hq ?_
    rw [Close, sub_self, abs_zero, zero_mul]
    exact abs_pos.mpr hzero

/-- A multiple of a last bit that is not too large is a number, also when its mantissa has one bit
too many. -/
theorem IsNumber.of_multiple {mantissa exponent : Int} (hprecision : 0 < format.precision)
    (hmantissa : |mantissa| ≤ 2 ^ format.precision) (hmin : format.minExponent ≤ exponent)
    (hrange : format.minExponent ≤ format.maxExponent)
    (hlarge : |(mantissa : ℚ) * 2 ^ exponent| < 2 ^ (format.maxExponent + format.precision)) :
    format.IsNumber (mantissa * 2 ^ exponent) := by
  have hunit : (0 : ℚ) < 2 ^ format.maxExponent := zpow_pos (by norm_num) _
  rcases le_or_gt format.maxExponent exponent with hle | hgt
  · obtain ⟨k, rfl⟩ := Int.le.dest hle
    have hvalue : (mantissa : ℚ) * 2 ^ (format.maxExponent + k) =
        ((mantissa * 2 ^ k : Int) : ℚ) * 2 ^ format.maxExponent := by
      rw [zpow_add₀ (by norm_num), zpow_natCast]
      push_cast
      ring
    rw [hvalue] at hlarge ⊢
    refine ⟨mantissa * 2 ^ k, format.maxExponent, ?_, hrange, le_rfl, rfl⟩
    rw [abs_multiple, zpow_add₀ (by norm_num), zpow_natCast,
      mul_comm ((2 : ℚ) ^ format.maxExponent)] at hlarge
    exact_mod_cast lt_of_mul_lt_mul_right hlarge hunit.le
  · rcases hmantissa.lt_or_eq with hlt | heq
    · exact ⟨mantissa, exponent, hlt, hmin, hgt.le, rfl⟩
    · obtain ⟨p, hp⟩ := Nat.exists_eq_succ_of_ne_zero hprecision.ne'
      obtain ⟨half, rfl⟩ : (2 : Int) ∣ mantissa := by
        rw [← dvd_abs, heq, hp, pow_succ]
        exact Dvd.intro_left _ rfl
      refine ⟨half, exponent + 1, ?_, by omega, by omega, ?_⟩
      · rw [abs_mul, hp, pow_succ] at heq
        rw [hp, pow_succ]
        have hpow : (0 : Int) < 2 ^ p := by positivity
        rw [show |(2 : Int)| = 2 from rfl] at heq
        omega
      · rw [zpow_add_one₀ (by norm_num)]
        push_cast
        ring

/-- What is rounded is a number. -/
theorem isNumber_of_round {x q : ℚ} (hprecision : 0 < format.precision)
    (hrange : format.minExponent ≤ format.maxExponent) (h : format.round x = some q) :
    format.IsNumber q := by
  rw [round] at h
  split at h
  swap
  · cases h
  rename_i hlarge
  cases h
  have hunit : (0 : ℚ) < 2 ^ format.lastBit x := zpow_pos (by norm_num) _
  refine .of_multiple hprecision ?_ (le_max_left _ _) hrange hlarge
  -- rounding up gives at most one bit more
  have hquotient : |x / 2 ^ format.lastBit x| < 2 ^ format.precision := by
    rw [abs_div, abs_of_pos hunit, div_lt_iff₀ hunit, mul_comm, ← zpow_natCast,
      ← zpow_add₀ (by norm_num)]
    exact format.abs_lt_lastBit x
  have hclose := abs_roundEven_sub_le (x / 2 ^ format.lastBit x)
  have hapart := abs_sub_abs_le_abs_sub (roundEven (x / 2 ^ format.lastBit x) : ℚ)
    (x / 2 ^ format.lastBit x)
  have hcast : (|roundEven (x / 2 ^ format.lastBit x)| : ℚ)
      < 2 ^ format.precision + 1 := by linarith
  have hint : |roundEven (x / 2 ^ format.lastBit x)|
      < 2 ^ format.precision + 1 := by exact_mod_cast hcast
  omega

/-! ## Leading digits -/

/-- A number is read back from so many of its leading digits in another base that the last one is
smaller than its last bit: `unit` is the place of that digit. -/
theorem round_of_digits {x q unit : ℚ} {digits : Nat} (hq : format.IsNumber q) (hzero : q ≠ 0)
    (hdigits : 2 ^ format.precision < digits) (hunit : unit * digits ≤ |q|)
    (hclose : |x - q| ≤ unit / 2) : format.round x = some q := by
  refine round_of_close hq ?_
  have hpositive : 0 < |q| := abs_pos.mpr hzero
  have hcast : (2 : ℚ) ^ format.precision < digits := by exact_mod_cast hdigits
  have hpower : (0 : ℚ) < 2 ^ format.precision := by positivity
  rw [Close, pow_succ]
  rcases le_or_gt unit 0 with hle | hgt
  · have hsame := abs_nonneg (x - q)
    have heq : |x - q| = 0 := by linarith
    rw [heq, zero_mul]
    exact hpositive
  · nlinarith

end Format

end TallerII.Lib.Binary
