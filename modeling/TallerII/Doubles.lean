import TallerII.Json
import TallerII.Lib.Literal

/-!
# Doubles as text

`valueToString(double)` prints 17 significant digits, and a stream reads a literal as the nearest
double. `round_rounded` says that a double survives, and `realToString_integer` and
`integral_of_digits` which doubles look like integers: those with less than 18 digits.
-/

namespace TallerII

open Lib

/-- The finite values of a `double`, where the two zeros are one. -/
def IsDouble (q : Rat) : Prop :=
  binary64.IsNumber q

/-- `istringstream >> double` of a literal. What is too large is no number. -/
def readDouble (text : Text) : Option Rat :=
  (Literal.value text).bind binary64.round

namespace Json

/-! ## The digits of a fraction -/

/-- A rounded quotient is at most one half away. -/
theorem abs_roundDiv_sub_le (num : Nat) {den : Nat} (hden : 0 < den) :
    |(roundDiv num den : ℚ) - num / den| ≤ 1 / 2 := by
  have hpos : (0 : ℚ) < den := by exact_mod_cast hden
  have hdivision : (num : ℚ) / den = (num / den : Nat) + (num % den : Nat) / den := by
    rw [div_eq_iff hpos.ne', add_mul, div_mul_cancel₀ _ hpos.ne', mul_comm]
    exact_mod_cast (Nat.div_add_mod num den).symm
  have hhalf : ∀ bound : ℚ, (num % den : Nat) / (den : ℚ) ≤ bound ↔
      (num % den : Nat) ≤ bound * den :=
    fun bound => div_le_iff₀ hpos
  rw [hdivision, abs_le]
  have hsmall : ((num % den : Nat) : ℚ) / den < 1 := by
    rw [div_lt_one hpos]
    exact_mod_cast Nat.mod_lt num hden
  have hnonneg : (0 : ℚ) ≤ ((num % den : Nat) : ℚ) / den := by positivity
  unfold roundDiv
  dsimp only
  split_ifs with hlow hhigh
  · have hle : ((num % den : Nat) : ℚ) / den ≤ 1 / 2 := by
      rw [hhalf]
      have : (2 * (num % den : Nat) : ℚ) < den := by exact_mod_cast hlow
      linarith
    refine ⟨by linarith, by linarith⟩
  · have hge : 1 / 2 ≤ ((num % den : Nat) : ℚ) / den := by
      rw [le_div_iff₀ hpos]
      have : (den : ℚ) < 2 * (num % den : Nat) := by exact_mod_cast hhigh
      linarith
    refine ⟨?_, ?_⟩ <;> push_cast <;> linarith
  all_goals
    have heq : ((num % den : Nat) : ℚ) / den = 1 / 2 := by
      rw [div_eq_div_iff hpos.ne' (by norm_num)]
      have : (2 * (num % den) : Nat) = den := by omega
      have : (2 * (num % den : Nat) : ℚ) = den := by exact_mod_cast this
      linarith
    refine ⟨?_, ?_⟩ <;> push_cast <;> linarith

/-- Nothing is rounded when it is divided by one. -/
@[simp] theorem roundDiv_one (num : Nat) : roundDiv num 1 = num := by
  simp [roundDiv, Nat.mod_one]

/-- The exponent is the one of the first digit. -/
theorem decimalExponent_eq {num den : Nat} (hnum : 0 < num) (hden : 0 < den) :
    decimalExponent num den = Int.log 10 ((num : ℚ) / den) := by
  have hpos : (0 : ℚ) < den := by exact_mod_cast hden
  have hnumPos : (0 : ℚ) < num := by exact_mod_cast hnum
  unfold decimalExponent
  split
  · rename_i hle
    rw [Int.log_of_one_le_right, Rat.natFloor_natCast_div_natCast]
    rw [one_le_div hpos]
    exact_mod_cast hle
  · rename_i hlt
    have hceil : ⌈((num : ℚ) / den)⁻¹⌉₊ = (den + num - 1) / num := by
      refine eq_of_forall_ge_iff fun bound => ?_
      rw [Nat.ceil_le, inv_div, div_le_iff₀ hnumPos, ← Nat.ceilDiv_eq_add_pred_div,
        ceilDiv_le_iff_le_mul hnum, mul_comm]
      exact_mod_cast Iff.rfl
    rw [Int.log_of_right_le_one, hceil]
    rw [div_le_one hpos]
    exact_mod_cast (not_le.mp hlt).le

/-- The digits of a fraction: so many that the last one is right by half of its unit, which is
small against the fraction. -/
structure Digits (q : ℚ) (mantissa : Nat) (exponent : Int) : Prop where
  least : 10 ^ 16 ≤ mantissa
  most : mantissa < 10 ^ 17
  log_le : Int.log 10 q ≤ exponent
  near : ∃ unit : ℚ, unit * 10 ^ 16 ≤ q ∧ |mantissa * 10 ^ (exponent - 16) - q| ≤ unit / 2

/-- The rounded digits are those of the fraction in units of the last one. -/
theorem abs_scaled_sub_le (num : Nat) {den : Nat} (hden : 0 < den) (exponent : Int) :
    |((if exponent ≤ 16 then roundDiv (num * 10 ^ (16 - exponent).toNat) den
        else roundDiv num (den * 10 ^ (exponent - 16).toNat) : Nat) : ℚ)
      - num / den / 10 ^ (exponent - 16)| ≤ 1 / 2 := by
  split
  · rename_i hle
    obtain ⟨k, hk⟩ := Int.le.dest hle
    have hquotient : (num : ℚ) / den / 10 ^ (exponent - 16) = (num * 10 ^ k : Nat) / den := by
      rw [show exponent - 16 = -(k : Int) by omega, zpow_neg, zpow_natCast]
      push_cast
      field_simp
    rw [hquotient, show (16 - exponent).toNat = k by omega]
    exact abs_roundDiv_sub_le _ hden
  · rename_i hgt
    obtain ⟨k, hk⟩ := Int.le.dest (not_le.mp hgt).le
    have hquotient : (num : ℚ) / den / 10 ^ (exponent - 16) = num / (den * 10 ^ k : Nat) := by
      rw [show exponent - 16 = (k : Int) by omega, zpow_natCast]
      push_cast
      field_simp
    rw [hquotient, show (exponent - 16).toNat = k by omega]
    exact abs_roundDiv_sub_le _ (by positivity)

/-- A power of ten in units of the last of 17 digits. -/
theorem zpow_eq_mul_unit (exponent : Int) :
    (10 : ℚ) ^ exponent = 10 ^ 16 * 10 ^ (exponent - 16) := by
  rw [← zpow_natCast (10 : ℚ) 16, ← zpow_add₀ (by norm_num)]
  congr 1
  omega

/-- Digits that are near a fraction between two powers of ten are 17, or they are the next power.
-/
theorem scaled_bounds {q : ℚ} {exponent : Int} {scaled : Nat} (hlow : 10 ^ exponent ≤ q)
    (hhigh : q < 10 ^ (exponent + 1)) (hclose : |scaled - q / 10 ^ (exponent - 16)| ≤ 1 / 2) :
    10 ^ 16 ≤ scaled ∧ scaled ≤ 10 ^ 17 := by
  have hunit : (0 : ℚ) < 10 ^ (exponent - 16) := zpow_pos (by norm_num) _
  have hnext : (10 : ℚ) ^ (exponent + 1) = 10 ^ 17 * 10 ^ (exponent - 16) := by
    rw [zpow_add_one₀ (by norm_num), zpow_eq_mul_unit]
    ring
  rw [zpow_eq_mul_unit, ← le_div_iff₀ hunit] at hlow
  rw [hnext, ← div_lt_iff₀ hunit] at hhigh
  obtain ⟨hbelow, habove⟩ := abs_le.mp hclose
  constructor
  · have hcast : (10 : ℚ) ^ 16 < scaled + 1 := by linarith
    have hint : 10 ^ 16 < scaled + 1 := by exact_mod_cast hcast
    omega
  · have hcast : (scaled : ℚ) < 10 ^ 17 + 1 := by linarith
    have hint : scaled < 10 ^ 17 + 1 := by exact_mod_cast hcast
    omega

/-- Near in units of the last digit is near by half of that unit. -/
theorem abs_sub_le_of_scaled {q unit : ℚ} {scaled : Nat} (hunit : 0 < unit)
    (hclose : |scaled - q / unit| ≤ 1 / 2) : |scaled * unit - q| ≤ unit / 2 := by
  have hfactor : scaled * unit - q = (scaled - q / unit) * unit := by
    field_simp
  rw [hfactor, abs_mul, abs_of_pos hunit]
  linarith [mul_le_mul_of_nonneg_right hclose hunit.le]

/-- The digits that are computed are those of the quotient. -/
theorem digits_significantDigits {num den : Nat} (hnum : 0 < num) (hden : 0 < den) :
    Digits (num / den) (significantDigits num den).1 (significantDigits num den).2 := by
  have hpos : (0 : ℚ) < den := by exact_mod_cast hden
  have hq : (0 : ℚ) < num / den := div_pos (by exact_mod_cast hnum) hpos
  unfold significantDigits
  rw [decimalExponent_eq hnum hden]
  have hlow := Int.zpow_log_le_self (b := 10) (by norm_num) hq
  have hhigh := Int.lt_zpow_succ_log_self (b := 10) (by norm_num) ((num : ℚ) / den)
  generalize hlog : Int.log 10 ((num : ℚ) / den) = exponent at hlow hhigh
  push_cast at hlow hhigh
  have hclose := abs_scaled_sub_le num hden exponent
  dsimp only
  generalize (if exponent ≤ 16 then roundDiv (num * 10 ^ (16 - exponent).toNat) den
    else roundDiv num (den * 10 ^ (exponent - 16).toNat)) = scaled at hclose ⊢
  have hunit : (0 : ℚ) < 10 ^ (exponent - 16) := zpow_pos (by norm_num) _
  obtain ⟨hleast, hmost⟩ := scaled_bounds hlow hhigh hclose
  have hnear := abs_sub_le_of_scaled hunit hclose
  have hsize : 10 ^ (exponent - 16) * 10 ^ 16 ≤ (num : ℚ) / den := by
    rwa [mul_comm, ← zpow_eq_mul_unit]
  split
  · -- rounding carried into another digit
    rename_i hcarry
    refine ⟨le_rfl, by norm_num, hlog ▸ Int.le.intro 1 rfl, _, hsize, ?_⟩
    have hvalue : ((10 ^ 16 : Nat) : ℚ) * 10 ^ (exponent + 1 - 16)
        = scaled * 10 ^ (exponent - 16) := by
      rw [hcarry, show exponent + 1 - 16
        = exponent - 16 + 1 by omega, zpow_add_one₀ (by norm_num)]
      push_cast
      ring
    rw [hvalue]
    exact hnear
  · exact ⟨hleast, by omega, hlog.le, _, hsize, hnear⟩

/-! ## The printed text -/

/-- What is trimmed are zeros. -/
theorem trimZeros_append (digits : Text) :
    ∃ count, digits = trimZeros digits ++ List.replicate count '0' := by
  refine ⟨(digits.reverse.takeWhile (· = '0')).length, ?_⟩
  have hzeros : digits.reverse.takeWhile (· = '0') =
      List.replicate (digits.reverse.takeWhile (· = '0')).length '0' := by
    refine List.eq_replicate_of_mem fun c hc => ?_
    simpa using List.mem_takeWhile_imp hc
  have hparts :=
    List.takeWhile_append_dropWhile (p := fun c : Char => decide (c = '0')) (l := digits.reverse)
  have hreverse := congrArg List.reverse hparts
  rw [List.reverse_append, List.reverse_reverse, hzeros, List.reverse_replicate] at hreverse
  exact hreverse.symm

/-- The power of ten: a sign and at least two digits. -/
def powerText (exponent : Int) : Text :=
  let power := Nat.toDigits 10 exponent.natAbs
  (if exponent < 0 then '-' else '+') :: (if power.length < 2 then '0' :: power else power)

/-- The digits of a mantissa around the point, with a power of ten where there are many places. -/
def layout (mantissa : Nat) (exponent : Int) : Text :=
  let digits := Nat.toDigits 10 mantissa
  if exponent < -4 ∨ 17 ≤ exponent then
    digits.take 1 ++ pointed (trimZeros (digits.drop 1)) ++ ('e' :: powerText exponent)
  else if exponent < 0 then
    '0' :: pointed (trimZeros (List.replicate (-exponent - 1).toNat '0' ++ digits))
  else
    digits.take (exponent.toNat + 1) ++ pointed (trimZeros (digits.drop (exponent.toNat + 1)))

/-- The digits that are printed for a value. -/
def printed (value : Rat) : Nat × Int :=
  significantDigits value.num.natAbs value.den

/-- A double is printed as a sign and a layout of its digits. -/
theorem realToString_eq {value : Rat} (h : value ≠ 0) :
    realToString value =
      (if value < 0 then ['-'] else []) ++ layout (printed value).1 (printed value).2 := by
  rw [realToString, if_neg h]
  simp only [layout, powerText, printed, List.append_assoc, List.cons_append, List.nil_append]
  rfl

/-- The digits that are printed are those of the absolute value. -/
theorem digits_printed {value : Rat} (h : value ≠ 0) :
    Digits |value| (printed value).1 (printed value).2 := by
  have hvalue : |value| = (value.num.natAbs : ℚ) / value.den := by
    rw [Rat.abs_def, Rat.divInt_eq_div, Int.cast_natCast, Int.cast_natCast]
  rw [hvalue]
  exact digits_significantDigits (Int.natAbs_pos.mpr (Rat.num_ne_zero.mpr h)) value.den_pos

section Layout

variable {mantissa : Nat} {exponent : Int}

/-- A mantissa has seventeen digits. -/
theorem length_mantissa (hleast : 10 ^ 16 ≤ mantissa) (hmost : mantissa < 10 ^ 17) :
    (Nat.toDigits 10 mantissa).length = 17 := by
  have hle :=
    (Nat.length_toDigits_le_iff (n := mantissa) (b := 10) (k := 17) (by norm_num)
      (by norm_num)).mpr hmost
  have hgt :=
    mt (Nat.length_toDigits_le_iff (n := mantissa) (b := 10) (k := 16) (by norm_num)
      (by norm_num)).mp
    (by omega)
  omega

/-- The value of digits around a point, without the zeros at their end. -/
theorem isLiteral_trimmed {whole decimals tail : Text} {power : Int} (hne : whole ≠ [])
    (hwhole : ∀ c ∈ whole, c.isDigit = true) (hdecimals : ∀ c ∈ decimals, c.isDigit = true)
    (htail : Literal.exponent tail = some power) :
    Literal.IsLiteral (whole ++ (pointed (trimZeros decimals) ++ tail))
      (Literal.scaled whole decimals power) := by
  obtain ⟨count, hcount⟩ := trimZeros_append decimals
  have htrimmed : ∀ c ∈ trimZeros decimals, c.isDigit = true := by
    intro c hc
    refine hdecimals c ?_
    rw [hcount]
    exact List.mem_append_left _ hc
  have hread := Literal.IsLiteral.parts hne hwhole htrimmed htail
  rw [← Literal.scaled_append_zeros _ _ count, ← hcount] at hread
  exact hread

/-- The digits of a number denote it. -/
theorem natural_toDigits (n : Nat) : Literal.natural (Nat.toDigits 10 n) = some n := by
  rw [Literal.natural_eq Nat.toDigits_ne_nil, Nat.ofDigitChars_ten_toDigits]
  exact fun c hc => Numeral.isDigit_of_mem_toDigits hc

/-- A zero in front changes no number. -/
theorem natural_cons_zero {digits : Text} {n : Nat} (h : Literal.natural digits = some n) :
    Literal.natural ('0' :: digits) = some n := by
  unfold Literal.natural at h ⊢
  split at h
  · rename_i hdigits
    rw [if_pos ⟨by simp, by simpa using hdigits.2⟩]
    exact h
  · cases h

/-- The exponent that is printed is read again. -/
theorem exponent_powerText (exponent : Int) :
    Literal.exponent ('e' :: powerText exponent) = some exponent := by
  have hdigits : Literal.natural (if (Nat.toDigits 10 exponent.natAbs).length < 2 then
      '0' :: Nat.toDigits 10 exponent.natAbs else Nat.toDigits 10 exponent.natAbs) =
      some exponent.natAbs := by
    split
    · exact natural_cons_zero (natural_toDigits _)
    · exact natural_toDigits _
  rw [Literal.exponent, if_pos (.inl rfl)]
  unfold powerText
  dsimp only
  by_cases hneg : exponent < 0
  · rw [if_pos hneg, Literal.integer, hdigits, Option.map_some]
    congr 1
    omega
  · rw [if_neg hneg, Literal.integer, hdigits, Option.map_some, Int.ofNat_eq_natCast]
    congr 1
    omega

/-- Each layout is a literal of the mantissa with its exponent. -/
theorem isLiteral_layout (hleast : 10 ^ 16 ≤ mantissa) (hmost : mantissa < 10 ^ 17) :
    Literal.IsLiteral (layout mantissa exponent) ((mantissa : ℚ) * 10 ^ (exponent - 16)) := by
  have hlength := length_mantissa hleast hmost
  have hvalue : Nat.ofDigitChars 10 (Nat.toDigits 10 mantissa) 0 = mantissa :=
    Nat.ofDigitChars_ten_toDigits
  have hdigits : ∀ c ∈ Nat.toDigits 10 mantissa, c.isDigit = true :=
    fun c hc => Numeral.isDigit_of_mem_toDigits hc
  unfold layout
  generalize Nat.toDigits 10 mantissa = digits at hlength hvalue hdigits
  have htake : ∀ count, ∀ c ∈ digits.take count, c.isDigit = true :=
    fun count c hc => hdigits c (List.mem_of_mem_take hc)
  have hdrop : ∀ count, ∀ c ∈ digits.drop count, c.isDigit = true :=
    fun count c hc => hdigits c (List.mem_of_mem_drop hc)
  dsimp only
  split
  · have hne : digits.take 1 ≠ [] := by
      rw [← List.length_pos_iff, List.length_take]
      omega
    have hread := isLiteral_trimmed hne (htake 1) (hdrop 1) (exponent_powerText exponent)
    rw [Literal.scaled, List.take_append_drop, hvalue, List.length_drop, hlength] at hread
    rw [List.append_assoc]
    exact hread
  · split
    · rename_i hmany hsmall
      have hzeros : ∀ c ∈ List.replicate (-exponent - 1).toNat '0' ++ digits, c.isDigit
          = true := by
        intro c hc
        rcases List.mem_append.mp hc with hzero | hdigit
        · rw [List.eq_of_mem_replicate hzero]
          rfl
        · exact hdigits c hdigit
      have hread := @isLiteral_trimmed ['0'] _ [] 0 (by simp) (by simp) hzeros rfl
      rw [List.append_nil, List.singleton_append, Literal.scaled, List.singleton_append,
        ← List.cons_append, ← List.replicate_succ, Nat.ofDigitChars_append,
        Nat.ofDigitChars_replicate_zero, Nat.mul_zero, hvalue, List.length_append,
        List.length_replicate, hlength,
        show (0 : Int) - ((-exponent - 1).toNat + 17 : Nat) = exponent - 16 by omega] at hread
      exact hread
    · rename_i hmany hsmall
      have hne : digits.take (exponent.toNat + 1) ≠ [] := by
        rw [← List.length_pos_iff, List.length_take]
        omega
      have hread := @isLiteral_trimmed _ _ [] 0 hne (htake _) (hdrop (exponent.toNat + 1)) rfl
      rw [List.append_nil, Literal.scaled, List.take_append_drop, hvalue, List.length_drop,
        hlength,
        show (0 : Int) - (17 - (exponent.toNat + 1) : Nat) = exponent - 16 by omega] at hread
      exact hread

end Layout

/-! ## Reading what was printed -/

/-- The value that the printed text has. -/
def rounded (value : Rat) : Rat :=
  let magnitude := ((printed value).1 : Rat) * 10 ^ ((printed value).2 - 16)
  if value < 0 then -magnitude else magnitude

/-- Rounding moves a number by half a unit of the last digit at most. -/
theorem rounded_near {value : Rat} (h : value ≠ 0) :
    ∃ unit : Rat, unit * 10 ^ 16 ≤ |value| ∧ |rounded value - value| ≤ unit / 2 := by
  obtain ⟨unit, hunit, hnear⟩ := (digits_printed h).near
  refine ⟨unit, hunit, ?_⟩
  rw [rounded]
  split
  · rename_i hneg
    rw [abs_of_neg hneg] at hnear
    rw [← abs_neg, neg_sub, sub_neg_eq_add, add_comm]
    rwa [sub_neg_eq_add] at hnear
  · rename_i hpos
    rwa [abs_of_nonneg (not_lt.mp hpos)] at hnear

/-- The printed digits are read as the double that was printed. -/
theorem round_rounded {value : Rat} (h : value ≠ 0) (hdouble : IsDouble value) :
    binary64.round (rounded value) = some value := by
  obtain ⟨unit, hunit, hnear⟩ := rounded_near h
  have hprecision : 2 ^ binary64.precision < 10 ^ 16 := by decide
  exact Binary.Format.round_of_digits hdouble h hprecision (by exact_mod_cast hunit) hnear

/-! ## Doubles that look like integers -/

/-- Powers of ten add zeros behind the digits. -/
theorem toDigits_mul_pow {n : Nat} (hn : 0 < n) (count : Nat) :
    Nat.toDigits 10 (n * 10 ^ count) = Nat.toDigits 10 n ++ List.replicate count '0' := by
  induction count with
  | zero => simp
  | succ count ih =>
      have hpos : 0 < n * 10 ^ count := by positivity
      have hshift : n * 10 ^ (count + 1) = 10 * (n * 10 ^ count) + 0 := by ring
      rw [hshift, ← Nat.toDigits_append_toDigits (by norm_num) hpos (by norm_num), ih,
        List.append_assoc,
        Nat.toDigits_zero, ← List.replicate_succ']

/-- Of zeros alone nothing is left. -/
theorem trimZeros_replicate (count : Nat) : trimZeros (List.replicate count '0') = [] := by
  rw [trimZeros, List.reverse_replicate, List.reverse_eq_nil_iff, List.dropWhile_eq_nil_iff]
  intro c hc
  rw [List.eq_of_mem_replicate hc]
  rfl

/-- An integer of at most 17 digits is printed as one. -/
theorem realToString_integer {n : Int} (hn : |n| < 10 ^ 17) :
    realToString n = Numeral.toText n := by
  rcases eq_or_ne n 0 with rfl | hzero
  · rfl
  have hpos : 0 < n.natAbs := Int.natAbs_pos.mpr hzero
  have hlog : Nat.log 10 n.natAbs ≤ 16 := by
    have hlt : n.natAbs < 10 ^ 17 := by
      rw [Int.abs_eq_natAbs] at hn
      omega
    have := Nat.log_lt_of_lt_pow hpos.ne' hlt
    omega
  have hlow : 10 ^ Nat.log 10 n.natAbs ≤ n.natAbs := Nat.pow_log_le_self 10 hpos.ne'
  have hhigh : n.natAbs < 10 ^ (Nat.log 10 n.natAbs + 1) :=
    Nat.lt_pow_succ_log_self (by norm_num) _
  obtain ⟨count, hcount⟩ := Nat.exists_eq_add_of_le hlog
  have hscaled : n.natAbs * 10 ^ count < 10 ^ 17 := by
    have hpower : 10 ^ (Nat.log 10 n.natAbs + 1) * 10 ^ count = 10 ^ 17 := by
      rw [← pow_add]
      congr 1
      omega
    have := Nat.mul_lt_mul_of_pos_right hhigh (show 0 < 10 ^ count by positivity)
    omega
  have hprinted : printed n = (n.natAbs * 10 ^ count, (Nat.log 10 n.natAbs : Int)) := by
    have hexponent : decimalExponent n.natAbs 1 = Nat.log 10 n.natAbs := by
      rw [decimalExponent, if_pos (Nat.one_le_iff_ne_zero.mpr hpos.ne'), Nat.div_one]
    rw [printed, Rat.num_intCast, Rat.den_intCast, significantDigits, hexponent]
    rw [if_pos (show (Nat.log 10 n.natAbs : Int) ≤ 16 by omega),
      show (16 - (Nat.log 10 n.natAbs : Int)).toNat
          = count by omega, roundDiv_one, if_neg hscaled.ne]
  have hlength : (Nat.toDigits 10 n.natAbs).length = Nat.log 10 n.natAbs + 1 := by
    have hle := (Nat.length_toDigits_le_iff (b := 10) (by norm_num) (Nat.succ_pos _)).mpr hhigh
    have hgt : ¬ (Nat.toDigits 10 n.natAbs).length ≤ Nat.log 10 n.natAbs := by
      intro hshort
      have hsome : 0 < Nat.log 10 n.natAbs := Nat.length_toDigits_pos.trans_le hshort
      have := (Nat.length_toDigits_le_iff (b := 10) (by norm_num) hsome).mp hshort
      omega
    omega
  have hlayout : layout (n.natAbs * 10 ^ count) (Nat.log 10 n.natAbs : Int)
      = Nat.toDigits 10 n.natAbs := by
    unfold layout
    rw [toDigits_mul_pow hpos]
    dsimp only
    rw [if_neg (by omega), if_neg (by omega), Int.toNat_natCast, ← hlength, List.take_left,
      List.drop_left,
      trimZeros_replicate, pointed, if_pos rfl, List.append_nil]
  have hcast : (n : Rat) ≠ 0 := by exact_mod_cast hzero
  rw [realToString_eq hcast, hprinted, hlayout, Numeral.toText]
  have hneg : ((n : Rat) < 0) ↔ n < 0 := by exact_mod_cast Iff.rfl
  by_cases h : n < 0
  · rw [if_pos (hneg.mpr h), if_pos h, List.singleton_append]
  · rw [if_neg (mt hneg.mp h), if_neg h, List.nil_append]

/-- A layout without a point and without a power is a whole number. -/
theorem whole_of_layout {mantissa : Nat} {exponent : Int} (hleast : 10 ^ 16 ≤ mantissa)
    (hmost : mantissa < 10 ^ 17) (hdigits : ∀ c ∈ layout mantissa exponent, c.isDigit = true) :
    exponent ≤ 16 ∧ ∃ whole : Nat, (mantissa : Rat) * 10 ^ (exponent - 16) = whole := by
  have hlength := length_mantissa hleast hmost
  have hvalue : Nat.ofDigitChars 10 (Nat.toDigits 10 mantissa) 0 = mantissa :=
    Nat.ofDigitChars_ten_toDigits
  have hpoint : ∀ {decimals : Text}, (∀ c ∈ pointed decimals, c.isDigit = true) →
      decimals = [] := by
    intro decimals hpointed
    by_contra hne
    rw [pointed, if_neg hne] at hpointed
    cases hpointed '.' List.mem_cons_self
  unfold layout at hdigits
  dsimp only at hdigits
  split at hdigits
  · cases hdigits 'e' (by simp)
  rename_i hmany
  obtain ⟨count, hcount⟩ :=
    trimZeros_append (Nat.toDigits 10 mantissa |>.drop (exponent.toNat + 1))
  split at hdigits
  · rename_i hsmall
    obtain ⟨zeros, hzeros⟩ :=
      trimZeros_append (List.replicate (-exponent - 1).toNat '0' ++ Nat.toDigits 10 mantissa)
    rw [hpoint fun c hc => hdigits c (List.mem_cons_of_mem _ hc), List.nil_append] at hzeros
    have hsum := congrArg (Nat.ofDigitChars 10 · 0) hzeros
    simp only [Nat.ofDigitChars_append, Nat.ofDigitChars_replicate_zero, Nat.mul_zero, hvalue]
      at hsum
    omega
  · rename_i hsmall
    rw [hpoint fun c hc => hdigits c (List.mem_append_right _ hc), List.nil_append] at hcount
    have hzeros : count = 17 - (exponent.toNat + 1) := by
      have := congrArg List.length hcount
      rw [List.length_drop, List.length_replicate, hlength] at this
      exact this.symm
    have hsplit := List.take_append_drop (exponent.toNat + 1) (Nat.toDigits 10 mantissa)
    rw [hcount] at hsplit
    rw [← hsplit, Nat.ofDigitChars_append, Nat.ofDigitChars_replicate_zero] at hvalue
    refine ⟨by omega,
      Nat.ofDigitChars 10 ((Nat.toDigits 10 mantissa).take (exponent.toNat + 1)) 0, ?_⟩
    generalize Nat.ofDigitChars 10 ((Nat.toDigits 10 mantissa).take (exponent.toNat + 1)) 0
      = whole at hvalue ⊢
    rw [← hvalue, show exponent - 16 = -(count : Int) by omega, zpow_neg, zpow_natCast]
    push_cast
    field_simp

/-- A double whose text has neither a point nor a power is an integer of at most 17 digits. -/
theorem integral_of_digits {value : Rat} (h : IsDouble value) (hzero : value ≠ 0)
    (hdigits : ∀ c ∈ layout (printed value).1 (printed value).2, c.isDigit = true) :
    ∃ n : Int, value = n ∧ |n| < 10 ^ 17 := by
  have hprinted := digits_printed hzero
  obtain ⟨hexponent, whole, hwhole⟩ := whole_of_layout hprinted.least hprinted.most hdigits
  obtain ⟨m, hm⟩ : ∃ m : Int, rounded value = m := by
    rw [rounded, hwhole]
    split
    · exact ⟨-whole, by push_cast; rfl⟩
    · exact ⟨whole, rfl⟩
  by_cases hint : ∃ n : Int, value = n
  · obtain ⟨n, rfl⟩ := hint
    refine ⟨n, rfl, ?_⟩
    have hpos : (0 : ℚ) < |(n : ℚ)| := abs_pos.mpr hzero
    have hlog := hprinted.log_le.trans hexponent
    have hlt := Int.lt_zpow_succ_log_self (b := 10) (by norm_num) |(n : ℚ)|
    have hpower : ((10 : Nat) : ℚ) ^ (Int.log 10 |(n : ℚ)| + 1) ≤ (10 : Nat) ^ (17 : Int) :=
      zpow_le_zpow_right₀ (by norm_num) (by omega)
    have hcast : |(n : ℚ)| < 10 ^ 17 := by
      refine (hlt.trans_le hpower).trans_le ?_
      norm_num
    exact_mod_cast hcast
  · -- what is printed has so few digits that it is a double itself
    have hbits := h.abs_lt fun n hn => hint ⟨n, hn⟩
    obtain ⟨unit, hunit, hnear⟩ := rounded_near hzero
    have hrounded := round_rounded hzero h
    have hapart := abs_sub_abs_le_abs_sub (rounded value) value
    have hbound : |rounded value| < 2 ^ 53 := by
      have hprecision : binary64.precision = 53 := rfl
      rw [hprecision] at hbits
      nlinarith
    have hnumber : binary64.IsNumber (rounded value) := by
      rw [hm] at hbound ⊢
      exact .ofInt (by exact_mod_cast hbound) (by decide) (by decide)
    have hsame := hrounded.symm.trans (Binary.Format.round_of_isNumber hnumber)
    exact absurd ⟨m, (Option.some.inj hsame).trans hm⟩ hint

end Json

end TallerII
