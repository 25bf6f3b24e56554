import Mathlib

/-!
# Formats

A format is a text with directives: each begins with a percent sign and ends with a conversion.
`expand` copies what stands between the directives and converts the directives with the arguments,
one after another. A format with an incomplete or an unknown directive has no expansion.

No conversion writes a percent sign but the one that stands for it, so an expansion has fewer of
them than a format with a directive. `suffix_framed_iff` uses this: a format is found at the end
of a frame around its expansion only when it has no directive.
-/

namespace TallerII.Lib.Printf

/-- The characters that end a directive. -/
def conversions : List Char :=
  "diouxXaAeEfFgGcspn%".toList

/-- The characters between the percent sign and the conversion. -/
def modifiers : List Char :=
  "-+ #0123456789.*hlLjzt".toList

/-- How the directives of a format are converted: the text for a directive and the arguments that
are left. -/
structure Converter (Arg : Type) where
  convert : List Char → Char → List Arg → Option (List Char × List Arg)
  count_le : ∀ {directive c args text left}, convert directive c args = some (text, left) →
    text.count '%' ≤ [c].count '%'

variable {Arg : Type} (converter : Converter Arg)

/-- Expands the rest of a format, within or outside of a directive. -/
def expandFrom : Option (List Char) → List Arg → List Char → Option (List Char × List Arg)
  | none, args, [] => some ([], args)
  | some _, _, [] => none
  | none, args, c :: rest =>
    if c = '%' then expandFrom (some []) args rest
    else do
      let (text, left) ← expandFrom none args rest
      return (c :: text, left)
  | some directive, args, c :: rest =>
    if c ∈ modifiers then expandFrom (some (directive ++ [c])) args rest
    else if c ∈ conversions then do
      let (converted, others) ← converter.convert directive c args
      let (text, left) ← expandFrom none others rest
      return (converted ++ text, left)
    else none

/-- Expands a format. Arguments that no directive takes are ignored. -/
def expand (args : List Arg) (format : List Char) : Option (List Char) :=
  (expandFrom converter none args format).map Prod.fst

variable {converter}

/-! ## Equations -/

/-- The end of the format. -/
@[simp] theorem expandFrom_nil (args : List Arg) :
    expandFrom converter none args [] = some ([], args) := rfl

/-- A directive without a conversion has no expansion. -/
@[simp] theorem expandFrom_incomplete (directive : List Char) (args : List Arg) :
    expandFrom converter (some directive) args [] = none := rfl

/-- A percent sign begins a directive. -/
@[simp] theorem expandFrom_percent (args : List Arg) (rest : List Char) :
    expandFrom converter none args ('%' :: rest) = expandFrom converter (some []) args rest := by
  simp [expandFrom]

/-- Any other character is copied. -/
theorem expandFrom_cons_eq_some {args left : List Arg} {c : Char} {rest text : List Char}
    (hc : c ≠ '%') :
    expandFrom converter none args (c :: rest) = some (text, left) ↔
      ∃ copied, expandFrom converter none args rest = some (copied, left) ∧
        text = c :: copied := by
  rw [expandFrom, if_neg hc]
  rcases expandFrom converter none args rest with _ | ⟨copied, others⟩
  · simp
  · simp [eq_comm, and_comm]

/-- A modifier belongs to its directive. -/
theorem expandFrom_modifier {directive rest : List Char} {args : List Arg} {c : Char}
    (hc : c ∈ modifiers) :
    expandFrom converter (some directive) args (c :: rest)
      = expandFrom converter (some (directive ++ [c])) args rest := by
  rw [expandFrom, if_pos hc]

/-- A conversion ends its directive. -/
theorem expandFrom_conversion_eq_some {directive rest text : List Char} {args left : List Arg}
    {c : Char} (hc : c ∉ modifiers) :
    expandFrom converter (some directive) args (c :: rest) = some (text, left) ↔
      c ∈ conversions ∧ ∃ converted others copied,
        converter.convert directive c args = some (converted, others) ∧
        expandFrom converter none others rest = some (copied, left) ∧
        text = converted ++ copied := by
  rw [expandFrom, if_neg hc]
  by_cases hconversion : c ∈ conversions
  · simp only [hconversion, if_true, Option.bind_eq_bind, Option.bind_eq_some_iff, Prod.exists,
      true_and, Option.pure_def, Option.some.injEq, Prod.mk.injEq]
    constructor
    · rintro ⟨converted, others, hconverted, copied, last, hcopied, rfl, rfl⟩
      exact ⟨converted, others, copied, hconverted, hcopied, rfl⟩
    · rintro ⟨converted, others, copied, hconverted, hcopied, rfl⟩
      exact ⟨converted, others, hconverted, copied, left, hcopied, rfl, rfl⟩
  · simp [hconversion]

/-! ## Percent signs -/

/-- An expansion has no more percent signs than the format. -/
theorem count_expandFrom_le {format text : List Char} {pending : Option (List Char)}
    {args left : List Arg} (h : expandFrom converter pending args format = some (text, left)) :
    text.count '%' ≤ format.count '%' := by
  induction format generalizing pending args text with
  | nil =>
      cases pending with
      | none =>
          cases h
          exact Nat.le_refl _
      | some directive => cases h
  | cons c rest ih =>
      cases pending with
      | none =>
          by_cases hc : c = '%'
          · subst hc
            rw [expandFrom_percent] at h
            exact (ih h).trans (List.count_le_count_cons ..)
          · obtain ⟨copied, hcopied, rfl⟩ := (expandFrom_cons_eq_some hc).mp h
            rw [List.count_cons_of_ne hc, List.count_cons_of_ne hc]
            exact ih hcopied
      | some directive =>
          by_cases hc : c ∈ modifiers
          · rw [expandFrom_modifier hc] at h
            exact (ih h).trans (List.count_le_count_cons ..)
          · obtain ⟨-, converted, others, copied, hconverted, hcopied, rfl⟩ :=
              (expandFrom_conversion_eq_some hc).mp h
            calc (converted ++ copied).count '%'
                = converted.count '%' + copied.count '%' := List.count_append
              _ ≤ [c].count '%' + rest.count '%' :=
                  Nat.add_le_add (converter.count_le hconverted) (ih hcopied)
              _ = (c :: rest).count '%' := by rw [← List.count_append, List.singleton_append]

/-- The percent sign that begins a directive is not written. -/
theorem count_expandFrom_lt {format text : List Char} {args left : List Arg}
    (h : expandFrom converter none args format = some (text, left)) (hdirective : '%' ∈ format) :
    text.count '%' < format.count '%' := by
  induction format generalizing text with
  | nil => cases hdirective
  | cons c rest ih =>
      by_cases hc : c = '%'
      · subst hc
        rw [expandFrom_percent] at h
        rw [List.count_cons_self]
        exact Nat.lt_succ_of_le (count_expandFrom_le h)
      · obtain ⟨copied, hcopied, rfl⟩ := (expandFrom_cons_eq_some hc).mp h
        rw [List.count_cons_of_ne hc, List.count_cons_of_ne hc]
        exact ih hcopied ((List.mem_cons.mp hdirective).resolve_left (Ne.symm hc))

/-- A format without directives is copied. -/
theorem expandFrom_of_not_mem {format : List Char} (args : List Arg) (h : '%' ∉ format) :
    expandFrom converter none args format = some (format, args) := by
  induction format with
  | nil => rfl
  | cons c rest ih =>
      rw [List.mem_cons, not_or] at h
      exact (expandFrom_cons_eq_some (Ne.symm h.1)).mpr ⟨rest, ih h.2, rfl⟩

/-- A format without a percent sign is its own expansion. -/
theorem expand_of_not_mem {format : List Char} (args : List Arg) (h : '%' ∉ format) :
    expand converter args format = some format := by
  rw [expand, expandFrom_of_not_mem args h]
  rfl

/-! ## Frames -/

/-- A character that stands outside of directives. -/
def Breaks (c : Char) : Prop :=
  c ≠ '%' ∧ c ∉ modifiers ∧ c ∉ conversions

/-- Whether a character breaks off a directive can be computed. -/
instance (c : Char) : Decidable (Breaks c) :=
  inferInstanceAs (Decidable (_ ∧ _))

/-- An expansion is divided where its format is. -/
theorem expandFrom_break {c : Char} (hc : Breaks c) {front rest text : List Char}
    {pending : Option (List Char)} {args left : List Arg}
    (h : expandFrom converter pending args (front ++ c :: rest) = some (text, left)) :
    ∃ before between after, text = before ++ c :: after ∧
      expandFrom converter none between rest = some (after, left) := by
  induction front generalizing pending args text with
  | nil =>
      cases pending with
      | none =>
          obtain ⟨copied, hcopied, rfl⟩ := (expandFrom_cons_eq_some hc.1).mp h
          exact ⟨[], args, copied, rfl, hcopied⟩
      | some directive =>
          exact absurd ((expandFrom_conversion_eq_some hc.2.1).mp h).1 hc.2.2
  | cons d front ih =>
      cases pending with
      | none =>
          by_cases hd : d = '%'
          · subst hd
            exact ih (expandFrom_percent args _ ▸ h)
          · obtain ⟨copied, hcopied, rfl⟩ := (expandFrom_cons_eq_some hd).mp h
            obtain ⟨before, between, after, rfl, hafter⟩ := ih hcopied
            exact ⟨d :: before, between, after, rfl, hafter⟩
      | some directive =>
          by_cases hd : d ∈ modifiers
          · rw [List.cons_append, expandFrom_modifier hd] at h
            exact ih h
          · obtain ⟨-, converted, others, copied, -, hcopied, rfl⟩ :=
              (expandFrom_conversion_eq_some hd).mp h
            obtain ⟨before, between, after, rfl, hafter⟩ := ih hcopied
            exact ⟨converted ++ before, between, after, by rw [List.append_assoc], hafter⟩

/-- An expansion does not stand behind a break in its own format: its own expansion would stand
behind a break in it, and so on. -/
theorem not_expansion_behind_break {c : Char} (hc : Breaks c) {front text : List Char}
    {args left : List Arg} :
    expandFrom converter none args (front ++ c :: text) ≠ some (text, left) := by
  induction hlength : text.length using Nat.strong_induction_on generalizing front text args with
  | _ length ih =>
      intro h
      obtain ⟨before, between, after, rfl, hafter⟩ := expandFrom_break hc h
      refine ih after.length ?_ rfl hafter
      rw [← hlength, List.length_append, List.length_cons]
      omega

/-- A format ends the frame around its expansion iff it has no directive. -/
theorem suffix_framed_iff {c : Char} (hc : Breaks c) {format text frame : List Char}
    {args : List Arg} (h : expand converter args format = some text) :
    format <:+ frame ++ c :: text ↔ '%' ∉ format := by
  obtain ⟨⟨expanded, left⟩, hexpanded, rfl⟩ := Option.map_eq_some_iff.mp h
  constructor
  · intro hframed hdirective
    have hbehind : ∀ front, format ≠ front ++ c :: expanded := by
      rintro front rfl
      exact not_expansion_behind_break hc hexpanded
    rcases List.suffix_or_suffix_of_suffix hframed (List.suffix_append frame (c :: expanded)) with
      hshort | ⟨front, hlong⟩
    · rcases List.suffix_cons_iff.mp hshort with heq | hwithin
      · exact hbehind [] heq
      · have hmore : format.count '%' ≤ expanded.count '%' := hwithin.sublist.count_le '%'
        have hfewer : expanded.count '%' < format.count '%' :=
          count_expandFrom_lt hexpanded hdirective
        omega
    · exact hbehind front hlong.symm
  · intro hplain
    rw [expandFrom_of_not_mem args hplain] at hexpanded
    cases hexpanded
    exact ⟨frame ++ [c], by simp⟩

/-! ## Sizes -/

/-- What stands between the percent sign and the conversion. -/
structure Specification where
  flags : List Char
  width : Nat
  precision : Option Nat
  length : List Char

/-- The value of decimal digits. -/
def number (digits : List Char) : Nat :=
  Nat.ofDigitChars 10 digits 0

/-- The flags, the width and the precision of a directive. -/
def specification (directive : List Char) : Specification :=
  let flags := directive.takeWhile (· ∈ "-+ #0".toList)
  let rest := directive.dropWhile (· ∈ "-+ #0".toList)
  let width := number (rest.takeWhile Char.isDigit)
  match rest.dropWhile Char.isDigit with
  | '.' :: rest =>
    let precision := number (rest.takeWhile Char.isDigit)
    { flags, width, precision := some precision, length := rest.dropWhile Char.isDigit }
  | length => { flags, width, precision := none, length }

/-- The digits of a conversion of a 64-bit unsigned integer. A signed conversion of a value that
is not one of its type is undefined, as is one of another kind of value. -/
def digits (c : Char) (value : Nat) : Option (List Char) :=
  match c with
  | 'd' | 'i' => if value < 2 ^ 63 then some (Nat.toDigits 10 value) else none
  | 'u' => some (Nat.toDigits 10 value)
  | 'o' => some (Nat.toDigits 8 value)
  | 'x' => some (Nat.toDigits 16 value)
  | 'X' => some ((Nat.toDigits 16 value).map Char.toUpper)
  | _ => none

/-- The digits with those that the precision asks for. The value zero has none when it is zero. -/
def precise (precision : Option Nat) (value : Nat) (digits : List Char) : List Char :=
  match precision with
  | none => digits
  | some 0 => if value = 0 then [] else digits
  | some precision => List.replicate (precision - digits.length) '0' ++ digits

/-- What stands before the digits: a sign, or the mark of the base. -/
def mark (flags : List Char) (c : Char) (value : Nat) (digits : List Char) : List Char :=
  if c = 'd' ∨ c = 'i' then if '+' ∈ flags then ['+'] else if ' ' ∈ flags then [' '] else []
  else if '#' ∈ flags then
    if c = 'o' then if digits.head? = some '0' then [] else ['0']
    else if value = 0 then []
    else ['0', c]
  else []

/-- Fills up to the width. -/
def fill (specification : Specification) (mark digits : List Char) : List Char :=
  let missing := specification.width - (mark.length + digits.length)
  if '-' ∈ specification.flags then mark ++ digits ++ List.replicate missing ' '
  else if '0' ∈ specification.flags ∧ specification.precision = none then
    mark ++ List.replicate missing '0' ++ digits
  else List.replicate missing ' ' ++ mark ++ digits

/-- The text of a 64-bit unsigned integer. -/
def formatSize (specification : Specification) (c : Char) (value : Nat) : Option (List Char) :=
  if specification.length ∉ [['l'], ['z'], ['j'], ['t']] then none
  else if '#' ∈ specification.flags ∧ c ∈ ['d', 'i', 'u'] then none
  else (digits c value).map fun digits =>
    let digits := precise specification.precision value digits
    fill specification (mark specification.flags c value digits) digits

/-- A directive takes the next argument, or stands for a percent sign. -/
def convertSize (directive : List Char) (c : Char) (args : List Nat) :
    Option (List Char × List Nat) :=
  if c = '%' then if directive = [] then some (['%'], args) else none
  else
    match args with
    | [] => none
    | value :: others => (formatSize (specification directive) c value).map (·, others)

/-- The digits that are shown are digits. -/
theorem mem_toDigitsCore {base fuel value : Nat} {c : Char} {shown : List Char}
    (h : c ∈ Nat.toDigitsCore base fuel value shown) :
    c ∈ shown ∨ ∃ digit : Nat, c = digit.digitChar := by
  induction fuel generalizing value shown with
  | zero => exact .inl h
  | succ fuel ih =>
      have hcons : c ∈ (value % base).digitChar :: shown →
          c ∈ shown ∨ ∃ digit : Nat, c = digit.digitChar := by
        intro hmem
        rcases List.mem_cons.mp hmem with hfirst | hshown
        · exact .inr ⟨_, hfirst⟩
        · exact .inl hshown
      rw [Nat.toDigitsCore] at h
      split at h
      · exact hcons h
      · exact (ih h).elim hcons .inr

/-- The same without what was shown before. -/
theorem mem_toDigits {base value : Nat} {c : Char} (h : c ∈ Nat.toDigits base value) :
    ∃ digit : Nat, c = digit.digitChar :=
  (mem_toDigitsCore h).resolve_left List.not_mem_nil

/-- No digit is a percent sign. -/
theorem toUpper_digitChar_ne (digit : Nat) : digit.digitChar.toUpper ≠ '%' :=
  match digit with
  | 0 | 1 | 2 | 3 | 4 | 5 | 6 | 7 | 8 | 9 | 10 | 11 | 12 | 13 | 14 | 15 => by decide
  | digit + 16 => by
      rw [Nat.digitChar_eq_star.mpr (Nat.le_add_left 16 digit)]
      decide

/-- Digits hold no percent sign. -/
theorem not_mem_toDigits (base value : Nat) : '%' ∉ Nat.toDigits base value := by
  intro h
  obtain ⟨digit, hdigit⟩ := mem_toDigits h
  exact Nat.digitChar_ne '%' (by decide) hdigit.symm

/-- Nor do those of a conversion. -/
theorem not_mem_digits {c : Char} {value : Nat} {text : List Char}
    (h : digits c value = some text) :
    '%' ∉ text := by
  have hsigned : (if value < 2 ^ 63 then some (Nat.toDigits 10 value) else none) = some text →
      '%' ∉ text := by
    intro hshown
    split at hshown
    · cases hshown
      exact not_mem_toDigits 10 value
    · cases hshown
  unfold digits at h
  split at h
  · exact hsigned h
  · exact hsigned h
  · cases h
    exact not_mem_toDigits 10 value
  · cases h
    exact not_mem_toDigits 8 value
  · cases h
    exact not_mem_toDigits 16 value
  · cases h
    intro hmem
    obtain ⟨c, hc, hupper⟩ := List.mem_map.mp hmem
    obtain ⟨digit, rfl⟩ := mem_toDigits hc
    exact toUpper_digitChar_ne digit hupper
  · cases h

/-- Nor do the zeros that the precision adds. -/
theorem not_mem_precise {precision : Option Nat} {value : Nat} {digits : List Char}
    (h : '%' ∉ digits) : '%' ∉ precise precision value digits := by
  unfold precise
  split
  · exact h
  · split
    · exact List.not_mem_nil
    · exact h
  · simp [List.mem_replicate, h]

/-- Nor does the mark of the base. -/
theorem not_mem_mark {flags digits : List Char} {c : Char} {value : Nat} (hc : c ≠ '%') :
    '%' ∉ mark flags c value digits := by
  unfold mark
  split_ifs <;> simp [hc.symm]

/-- Nor does what fills the width. -/
theorem not_mem_fill {specification : Specification} {mark digits : List Char}
    (hmark : '%' ∉ mark) (hdigits : '%' ∉ digits) : '%' ∉ fill specification mark digits := by
  unfold fill
  simp only
  split_ifs <;> simp [List.mem_replicate, hmark, hdigits]

/-- So a number is shown without a percent sign. -/
theorem not_mem_formatSize {specification : Specification} {c : Char} {value : Nat}
    {text : List Char} (hc : c ≠ '%') (h : formatSize specification c value = some text) :
    '%' ∉ text := by
  unfold formatSize at h
  split at h
  · cases h
  split at h
  · cases h
  obtain ⟨shown, hshown, rfl⟩ := Option.map_eq_some_iff.mp h
  exact not_mem_fill (not_mem_mark hc) (not_mem_precise (not_mem_digits hshown))

/-- The conversions of 64-bit unsigned integers. -/
def sizes : Converter Nat where
  convert := convertSize
  count_le {directive c args text left} h := by
    unfold convertSize at h
    split at h
    · rename_i hpercent
      split at h
      · cases h
        rw [hpercent]
      · cases h
    · rename_i hc
      split at h
      · cases h
      · obtain ⟨shown, hshown, hpair⟩ := Option.map_eq_some_iff.mp h
        cases hpair
        rw [List.count_eq_zero_of_not_mem (not_mem_formatSize hc hshown)]
        exact Nat.zero_le _

example : expand sizes [42] "<%-5zu> of 100%%".toList = some "<42   > of 100%".toList := by decide

end TallerII.Lib.Printf
