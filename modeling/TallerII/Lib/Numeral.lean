import Mathlib.Data.Int.Basic
import Mathlib.Data.List.TakeWhile

/-!
# Decimal numerals

`toText` writes an integer in decimal, with a minus sign for a negative one. `scan` reads an
integer from the front of a text the way the C library does: blanks are skipped, one sign is
taken, then as many digits as there are, and what follows them is ignored. `scan_toText` says
that a written integer is read back, whatever follows it, as long as it is not another digit.
-/

namespace TallerII.Lib.Numeral

/-- The decimal numeral of an integer. -/
def toText (value : Int) : List Char :=
  if value < 0 then '-' :: Nat.toDigits 10 value.natAbs else Nat.toDigits 10 value.natAbs

/-- The blanks that a numeral may start with. -/
def isSpace (c : Char) : Bool :=
  c = ' ' || (9 ≤ c.toNat && c.toNat ≤ 13)

/-- The value of the digits at the front of a text, if there is at least one. -/
def scanDigits (text : List Char) : Option Nat :=
  match text.takeWhile Char.isDigit with
  | [] => none
  | digits => some (Nat.ofDigitChars 10 digits 0)

/-- The integer at the front of a text: blanks, an optional sign, digits. -/
def scan (text : List Char) : Option Int :=
  match text.dropWhile isSpace with
  | '-' :: rest => (scanDigits rest).map (- Int.ofNat ·)
  | '+' :: rest => (scanDigits rest).map Int.ofNat
  | rest => (scanDigits rest).map Int.ofNat

/-! ## Characters of a numeral -/

/-- Decimal digits are digits. -/
theorem isDigit_of_mem_toDigits {n : Nat} {c : Char} (h : c ∈ Nat.toDigits 10 n) :
    c.isDigit = true :=
  Nat.isDigit_of_mem_toDigits (by decide) (by decide) h

/-- A number is printed with digits and a sign. -/
theorem mem_toText {value : Int} {c : Char} (h : c ∈ toText value) :
    c = '-' ∨ c.isDigit = true := by
  unfold toText at h
  split at h
  · rcases List.mem_cons.mp h with rfl | hdigit
    · exact .inl rfl
    · exact .inr (isDigit_of_mem_toDigits hdigit)
  · exact .inr (isDigit_of_mem_toDigits h)

/-- A character that is neither a digit nor the sign does not occur in a numeral. -/
theorem not_mem_toText {c : Char} (hsign : c ≠ '-') (hdigit : c.isDigit = false) (value : Int) :
    c ∉ toText value := by
  intro h
  rcases mem_toText h with rfl | hd
  · exact hsign rfl
  · simp [hdigit] at hd

/-- A number is not printed as nothing. -/
theorem toText_ne_nil (value : Int) : toText value ≠ [] := by
  unfold toText
  split
  · simp
  · exact Nat.toDigits_ne_nil

/-! ## Reading digits -/

/-- Digits are read up to the first character that is none. -/
theorem scanDigits_append {digits : List Char} (hne : digits ≠ [])
    (hdigits : ∀ c ∈ digits, c.isDigit = true) (rest : List Char)
    (hrest : ∀ c ∈ rest.head?, c.isDigit = false) :
    scanDigits (digits ++ rest) = some (Nat.ofDigitChars 10 digits 0) := by
  have htake : (digits ++ rest).takeWhile Char.isDigit = digits := by
    rw [List.takeWhile_append_of_pos hdigits]
    cases rest with
    | nil => simp
    | cons c rest => simp [hrest c rfl]
  rw [scanDigits, htake]
  cases digits with
  | nil => exact absurd rfl hne
  | cons digit digits => rfl

/-- A digit is neither a blank nor a sign, so it starts a numeral. -/
theorem scan_append {digits : List Char} (hne : digits ≠ [])
    (hdigits : ∀ c ∈ digits, c.isDigit = true) (rest : List Char)
    (hrest : ∀ c ∈ rest.head?, c.isDigit = false) :
    scan (digits ++ rest) = some (Nat.ofDigitChars 10 digits 0 : Int) := by
  have hscan := scanDigits_append hne hdigits rest hrest
  cases digits with
  | nil => exact absurd rfl hne
  | cons digit digits =>
      have hdigit : digit.isDigit = true := hdigits digit List.mem_cons_self
      have hspace : isSpace digit = false := by
        simp only [Char.isDigit, Bool.and_eq_true, decide_eq_true_eq] at hdigit
        have hlow : 48 ≤ digit.toNat := hdigit.1
        simp only [isSpace, Bool.or_eq_false_iff, decide_eq_false_iff_not, Bool.and_eq_false_iff]
        refine ⟨?_, .inr (by omega)⟩
        rintro rfl
        simp at hlow
      have hminus : digit ≠ '-' := by
        rintro rfl
        simp [Char.isDigit] at hdigit
      have hplus : digit ≠ '+' := by
        rintro rfl
        simp [Char.isDigit] at hdigit
      simp only [List.cons_append] at hscan ⊢
      rw [scan, List.dropWhile_cons_of_neg (by simp [hspace])]
      split
      · rename_i heq
        exact absurd (List.cons.inj heq).1 hminus
      · rename_i heq
        exact absurd (List.cons.inj heq).1 hplus
      · rw [hscan, Option.map_some, Int.ofNat_eq_natCast]

/-- A minus sign in front negates what is scanned. -/
theorem scan_minus (text : List Char) :
    scan ('-' :: text) = (scanDigits text).map (- Int.ofNat ·) := by
  simp [scan, isSpace]

/-- There is no number in the empty text. -/
theorem scan_nil : scan [] = none := rfl

/-! ## Reading back -/

/-- A written integer is read back, whatever follows it except another digit. -/
theorem scan_toText (value : Int) {rest : List Char}
    (hrest : ∀ c ∈ rest.head?, c.isDigit = false) :
    scan (toText value ++ rest) = some value := by
  have hne : Nat.toDigits 10 value.natAbs ≠ [] := Nat.toDigits_ne_nil
  unfold toText
  split
  · rename_i hneg
    rw [List.cons_append, scan_minus,
      scanDigits_append hne (fun _ => isDigit_of_mem_toDigits) rest hrest,
      Nat.ofDigitChars_ten_toDigits,
      Option.map_some, Int.ofNat_eq_natCast]
    congr 1
    omega
  · rename_i hpos
    rw [scan_append hne (fun _ => isDigit_of_mem_toDigits) rest hrest,
      Nat.ofDigitChars_ten_toDigits]
    congr 1
    omega

/-- The first digits alone are a smaller number, unless the number is zero. -/
theorem ofDigitChars_take_ne {n width : Nat} (hwidth : 0 < width)
    (hlong : width < (Nat.toDigits 10 n).length) :
    Nat.ofDigitChars 10 ((Nat.toDigits 10 n).take width) 0 ≠ n := by
  intro hsame
  have hvalue : Nat.ofDigitChars 10 (Nat.toDigits 10 n) 0 = n := Nat.ofDigitChars_ten_toDigits
  rw [← List.take_append_drop width (Nat.toDigits 10 n), Nat.ofDigitChars_append, hsame,
    Nat.ofDigitChars_eq_ofDigitChars_zero, List.length_drop] at hvalue
  have hpow : 10 ≤ 10 ^ ((Nat.toDigits 10 n).length - width) :=
    Nat.le_self_pow (by omega) 10
  have hmul := Nat.mul_le_mul_right n hpow
  obtain rfl : n = 0 := by omega
  have hzero : (Nat.toDigits 10 0).length = 1 := rfl
  omega

/-- A written number that is cut off is read back exactly when all of its digits are left. -/
theorem scan_take_toText {value : Int} (hvalue : 0 ≤ value) {rest : List Char}
    (hrest : ∀ c ∈ rest.head?, c.isDigit = false) {width : Nat} (hwidth : 0 < width) :
    scan ((toText value ++ rest).take width) = some value ↔ (toText value).length ≤ width := by
  obtain ⟨n, rfl⟩ := Int.eq_ofNat_of_zero_le hvalue
  have htext : toText (n : Int) = Nat.toDigits 10 n := by
    rw [toText, if_neg (by omega), Int.natAbs_natCast]
  constructor
  · intro hscan
    by_contra hlong
    rw [htext] at hscan hlong
    rw [List.take_append_of_le_length (by omega)] at hscan
    have hne : (Nat.toDigits 10 n).take width ≠ [] := by
      rw [← List.length_pos_iff, List.length_take]
      omega
    have hread := scan_append hne
      (fun _ hc => isDigit_of_mem_toDigits (List.mem_of_mem_take hc)) [] (by simp)
    rw [List.append_nil, hscan, Option.some.injEq, Int.natCast_inj] at hread
    exact ofDigitChars_take_ne hwidth (by omega) hread.symm
  · intro hshort
    rw [List.take_append, List.take_of_length_le hshort]
    refine scan_toText n fun c hc => hrest c ?_
    cases rest with
    | nil => simp at hc
    | cons first rest =>
        cases hleft : width - (toText (n : Int)).length with
        | zero =>
            rw [hleft] at hc
            cases hc
        | succ left =>
            rw [hleft] at hc
            exact hc

/-- Different integers have different numerals. -/
theorem toText_injective : Function.Injective toText := by
  intro left right h
  have hleft : scan (toText left ++ []) = some left := scan_toText left (by simp)
  have hright : scan (toText right ++ []) = some right := scan_toText right (by simp)
  rw [h] at hleft
  exact Option.some.inj (hleft.symm.trans hright)

/-- Different numbers are printed differently. -/
@[simp] theorem toText_inj {left right : Int} : toText left = toText right ↔ left = right :=
  toText_injective.eq_iff

/-! ## Numerals of a value -/

/-- A text that is precisely a numeral of a value: at least one digit, after a minus sign or none.
-/
def Denotes (text : List Char) (value : Int) : Prop :=
  ∃ digits, digits ≠ [] ∧ (∀ c ∈ digits, c.isDigit = true) ∧
    ((text = digits ∧ value = Nat.ofDigitChars 10 digits 0) ∨
      (text = '-' :: digits ∧ value = -(Nat.ofDigitChars 10 digits 0 : Int)))

/-- A numeral is read as its value. -/
theorem scan_of_denotes {text : List Char} {value : Int} (h : Denotes text value) :
    scan text = some value := by
  obtain ⟨digits, hne, hdigits, ⟨rfl, rfl⟩ | ⟨rfl, rfl⟩⟩ := h
  · have hscan := scan_append hne hdigits [] (by simp)
    rwa [List.append_nil] at hscan
  · have hscan := scanDigits_append hne hdigits [] (by simp)
    rw [List.append_nil] at hscan
    rw [scan_minus, hscan, Option.map_some, Int.ofNat_eq_natCast]

/-- A numeral consists of digits and a sign. -/
theorem mem_of_denotes {text : List Char} {value : Int} (h : Denotes text value) {c : Char}
    (hc : c ∈ text) : c = '-' ∨ c.isDigit = true := by
  obtain ⟨digits, -, hdigits, ⟨rfl, -⟩ | ⟨rfl, -⟩⟩ := h
  · exact .inr (hdigits c hc)
  · rcases List.mem_cons.mp hc with rfl | hc
    · exact .inl rfl
    · exact .inr (hdigits c hc)

/-- A text is a numeral of one value only. -/
theorem denotes_unique {text : List Char} {left right : Int} (hleft : Denotes text left)
    (hright : Denotes text right) : left = right :=
  Option.some.inj ((scan_of_denotes hleft).symm.trans (scan_of_denotes hright))

/-- What is written is a numeral. -/
theorem denotes_toText (value : Int) : Denotes (toText value) value := by
  refine ⟨Nat.toDigits 10 value.natAbs, Nat.toDigits_ne_nil, fun _ => isDigit_of_mem_toDigits, ?_⟩
  rw [Nat.ofDigitChars_ten_toDigits, toText]
  split
  · exact .inr ⟨rfl, by omega⟩
  · exact .inl ⟨rfl, by omega⟩

end TallerII.Lib.Numeral
