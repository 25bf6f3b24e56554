import TallerII.Reader

/-!
# Reading tokens

What `readToken` makes of the texts of the tokens, whatever is behind them: a character of
punctuation, a literal, a keyword, a string. `Spells` relates a text to all that may stand for it
between two quotes, and `decodeString_of_spells` reads it back.
-/

namespace TallerII.Reader

open Lib

/-! ## What a token takes -/

/-- Nothing but blanks. -/
def Blank (gap : Text) : Prop :=
  ∀ c ∈ gap, isBlank c = true

/-- No characters are blanks. -/
theorem blank_nil : Blank [] := by
  intro c hc
  cases hc

/-- Blanks in front are skipped. -/
theorem skipSpaces_append {gap : Text} (h : Blank gap) (document : Text) :
    skipSpaces (gap ++ document) = skipSpaces document :=
  List.dropWhile_append_of_pos h

/-- The token behind blanks. -/
theorem readToken_append {gap : Text} (h : Blank gap) (document : Text) :
    readToken (gap ++ document) = readToken document := by
  rw [readToken, skipSpaces_append h, readToken]

/-- A token that is no comment is the next one. -/
theorem skipCommentTokens_eq {document : Text} (h : (readToken document).1.type ≠ .comment) :
    skipCommentTokens document = readToken document := by
  rw [skipCommentTokens]
  cases document with
  | nil => rfl
  | cons c rest => exact if_neg h

/-- The characters of a token are those in front of the rest. -/
theorem between_append (text current : Text) : between (text ++ current) current = text := by
  rw [between, List.length_append, Nat.add_sub_cancel_right, List.take_left]

/-- Other characters are not skipped. -/
theorem skipSpaces_cons {c : Char} (h : isBlank c = false) (rest : Text) :
    skipSpaces (c :: rest) = c :: rest :=
  List.dropWhile_cons_of_neg (by simp [h])

/-- A token whose characters are known. -/
theorem readToken_of_scan {c : Char} (text : Text) {rest : Text} {type : TokenType}
    (hblank : isBlank c = false) (h : scanToken c (text ++ rest) = (type, rest)) :
    readToken (c :: (text ++ rest)) = ({ type, text := c :: text }, rest) := by
  rw [readToken, skipSpaces_cons hblank]
  dsimp only
  rw [h, ← List.cons_append, between_append]

/-- The tokens of one character. -/
def punctuation : Char → Option TokenType
  | '\x7b' => some .objectBegin
  | '\x7d' => some .objectEnd
  | '[' => some .arrayBegin
  | ']' => some .arrayEnd
  | ',' => some .arraySeparator
  | ':' => some .memberSeparator
  | _ => none

/-- A character of punctuation is a token. -/
theorem readToken_punctuation {c : Char} {type : TokenType} (h : punctuation c = some type)
    (rest : Text) : readToken (c :: rest) = ({ type, text := [c] }, rest) := by
  unfold punctuation at h
  split at h <;> cases h <;> exact readToken_of_scan [] rfl rfl

/-- What may stand behind a number without being read as a part of it. -/
def EndsNumber (rest : Text) : Prop :=
  ∀ c ∈ rest.head?, c.isDigit = false ∧ c ≠ '.' ∧ c ≠ 'e' ∧ c ≠ 'E'

/-- Digits are taken up to the first other character. -/
theorem dropWhile_digits {digits rest : Text} (hdigits : ∀ c ∈ digits, c.isDigit = true)
    (hrest : ∀ c ∈ rest.head?, c.isDigit = false) :
      (digits ++ rest).dropWhile Char.isDigit = rest :=
  (Literal.takeWhile_digits hdigits hrest).2

/-- A sign in front of digits is taken. -/
theorem readSign_append {sign : Text} (hsign : sign = [] ∨ sign = ['-'] ∨ sign = ['+'])
    {digits : Text}
    (hne : digits ≠ []) (hdigits : ∀ c ∈ digits, c.isDigit = true) (rest : Text) :
    readSign (sign ++ (digits ++ rest)) = digits ++ rest := by
  obtain ⟨digit, others, rfl⟩ := List.exists_cons_of_ne_nil hne
  have hdigit := hdigits digit List.mem_cons_self
  rcases hsign with rfl | rfl | rfl
  · refine if_neg ?_
    rintro (rfl | rfl) <;> cases hdigit
  · rfl
  · rfl

/-- An integer is a sign and digits. -/
theorem integer_parts {text : Text} {power : Int} (h : Literal.integer text = some power) :
    ∃ sign digits, text = sign ++ digits ∧ (sign = [] ∨ sign = ['-'] ∨ sign = ['+']) ∧
      digits ≠ [] ∧
      ∀ c ∈ digits, c.isDigit = true := by
  have hnatural : ∀ {digits : Text} {n : Nat}, Literal.natural digits = some n →
      digits ≠ [] ∧ ∀ c ∈ digits, c.isDigit = true :=
    fun hn => ⟨(Literal.natural_parts hn).1, (Literal.natural_parts hn).2.1⟩
  unfold Literal.integer at h
  split at h
  · obtain ⟨n, hn, -⟩ := Option.map_eq_some_iff.mp h
    exact ⟨['-'], _, rfl, .inr (.inl rfl), hnatural hn⟩
  · obtain ⟨n, hn, -⟩ := Option.map_eq_some_iff.mp h
    exact ⟨['+'], _, rfl, .inr (.inr rfl), hnatural hn⟩
  · obtain ⟨n, hn, -⟩ := Option.map_eq_some_iff.mp h
    exact ⟨[], _, rfl, .inl rfl, hnatural hn⟩

/-- An exponent is taken as a whole. -/
theorem readExponent_append {tail rest : Text} {power : Int}
    (htail : Literal.exponent tail = some power)
    (hrest : EndsNumber rest) : readExponent (tail ++ rest) = rest := by
  cases tail with
  | nil =>
      cases rest with
      | nil => rfl
      | cons c rest => exact if_neg (by simp [(hrest c rfl).2.2])
  | cons c tail =>
      rw [Literal.exponent] at htail
      split at htail
      · rename_i hletter
        obtain ⟨sign, digits, rfl, hsign, hne, hdigits⟩ := integer_parts htail
        rw [List.cons_append, readExponent, if_pos hletter, List.append_assoc,
          readSign_append hsign hne hdigits, dropWhile_digits hdigits fun c hc => (hrest c hc).1]
      · cases htail

/-- A literal is taken as a whole. -/
theorem readNumber_append {whole decimals tail rest : Text} {power : Int}
    (hwhole : ∀ c ∈ whole, c.isDigit = true) (hdecimals : ∀ c ∈ decimals, c.isDigit = true)
    (htail : Literal.exponent tail = some power) (hrest : EndsNumber rest) :
    readNumber (whole ++ (Literal.pointed decimals ++ (tail ++ rest))) = rest := by
  have hbehind : ∀ c ∈ (tail ++ rest).head?, c.isDigit = false ∧ c ≠ '.' := by
    intro c hc
    rw [List.head?_append] at hc
    cases hhead : tail.head? with
    | none =>
        rw [hhead, Option.none_or] at hc
        exact ⟨(hrest c hc).1, (hrest c hc).2.1⟩
    | some first =>
        rw [hhead, Option.some_or] at hc
        obtain rfl : first = c := Option.some.inj hc
        rcases Literal.exponent_head htail first hhead with rfl | rfl <;> exact ⟨rfl, by decide⟩
  have hintegral : (whole ++ (Literal.pointed decimals ++ (tail ++ rest))).dropWhile
      Char.isDigit =
      Literal.pointed decimals ++ (tail ++ rest) := by
    refine dropWhile_digits hwhole fun c hc => ?_
    rw [Literal.pointed] at hc
    split at hc
    · exact (hbehind c hc).1
    · cases hc
      rfl
  have hfraction : readFraction (Literal.pointed decimals ++ (tail ++ rest)) = tail ++ rest := by
    rw [Literal.pointed]
    split
    · rw [List.nil_append, readFraction]
      intro digits heq
      exact (hbehind '.' (by rw [heq]; rfl)).2 rfl
    · exact dropWhile_digits hdecimals fun c hc => (hbehind c hc).1
  rw [readNumber, hintegral, hfraction]
  exact readExponent_append htail hrest

/-- A digit begins a number. -/
theorem scanToken_digit {c : Char} (h : c.isDigit = true) (current : Text) :
    scanToken c current = (.number, readNumber current) := by
  have hother : ∀ {other : Char}, other.isDigit = false → c ≠ other := by
    rintro other hc rfl
    rw [h] at hc
    cases hc
  rw [scanToken, if_neg (hother rfl), if_neg (hother rfl), if_neg (hother rfl),
    if_neg (hother rfl),
    if_neg (hother rfl), if_neg (hother rfl), if_pos (.inl h)]

/-- A digit is no blank. -/
theorem isBlank_digit {c : Char} (h : c.isDigit = true) : isBlank c = false := by
  have hother : ∀ {other : Char}, other.isDigit = false → decide (c = other) = false := by
    intro other hc
    refine decide_eq_false ?_
    rintro rfl
    rw [h] at hc
    cases hc
  rw [isBlank, hother rfl, hother rfl, hother rfl, hother rfl]
  rfl

/-- The token of a number with a sign or none. -/
theorem readToken_literal {text rest : Text} {q : Rat} (h : Literal.IsLiteral text q)
    (hrest : EndsNumber rest) :
    readToken (text ++ rest) = ({ type := .number, text }, rest) ∧
      readToken ('-' :: (text ++ rest)) = ({ type := .number, text := '-' :: text }, rest) := by
  obtain @⟨whole, decimals, tail, power, hne, hwhole, hdecimals, htail⟩ := h
  have hassoc : ∀ digits : Text, digits ++ (Literal.pointed decimals ++ tail) ++ rest =
      digits ++ (Literal.pointed decimals ++ (tail ++ rest)) := by
    intro digits
    rw [List.append_assoc, List.append_assoc]
  constructor
  · obtain ⟨digit, digits, rfl⟩ := List.exists_cons_of_ne_nil hne
    have hdigit := hwhole digit List.mem_cons_self
    refine readToken_of_scan (digits ++ _) (isBlank_digit hdigit) ?_
    rw [scanToken_digit hdigit, hassoc,
      readNumber_append (fun c hc => hwhole c (List.mem_cons_of_mem _ hc)) hdecimals htail hrest]
  · refine readToken_of_scan _ rfl ?_
    show (_, readNumber _) = _
    rw [hassoc, readNumber_append hwhole hdecimals htail hrest]

/-- A string is a token with its quotes. -/
theorem readToken_string {spelling rest : Text}
    (h : readString (spelling ++ '"' :: rest) = (true, rest)) :
    readToken ('"' :: (spelling ++ '"' :: rest)) =
      ({ type := .string, text := '"' :: (spelling ++ ['"']) }, rest) := by
  have hquoted : spelling ++ '"' :: rest = (spelling ++ ['"']) ++ rest := by
    rw [List.append_assoc, List.singleton_append]
  rw [hquoted] at h ⊢
  refine readToken_of_scan _ rfl ?_
  show checked .string (readString _) = _
  rw [h]
  rfl

/-- The words for the values that have one. -/
def keyword : TokenType → Option Text
  | .true => some "true".toList
  | .false => some "false".toList
  | .null => some "null".toList
  | _ => none

/-- A pattern in front is taken. -/
theorem matchPattern_append (pattern rest : Text) :
    matchPattern pattern (pattern ++ rest) = (true, rest) := by
  rw [matchPattern, if_pos (List.isPrefixOf_iff_prefix.mpr (List.prefix_append _ _)),
    List.drop_left]

/-- A keyword is a token. -/
theorem readToken_keyword {type : TokenType} {word : Text} (h : keyword type = some word)
    (rest : Text) :
    readToken (word ++ rest) = ({ type, text := word }, rest) := by
  unfold keyword at h
  split at h <;> cases h
  · exact readToken_of_scan "rue".toList rfl
      (congrArg (checked .true) (matchPattern_append _ rest))
  · exact readToken_of_scan "alse".toList rfl
      (congrArg (checked .false) (matchPattern_append _ rest))
  · exact readToken_of_scan "ull".toList rfl
      (congrArg (checked .null) (matchPattern_append _ rest))

/-! ## Strings -/

/-- The number that four hexadecimal digits write. -/
def hexNumber (digits : Text) : Option Nat :=
  if digits.length = 4 then
    (digits.mapM JsonText.hexValue).map fun values =>
      values.foldl (fun unicode digit => unicode * 16 + digit) 0
  else none

/-- The escapes of a code point: four digits, or eight for a pair of surrogates. -/
inductive CodePoint : Text → Nat → Prop where
  | single {digits : Text} {unicode : Nat} (h : hexNumber digits = some unicode)
      (hsurrogate : ¬ (0xD800 ≤ unicode ∧ unicode ≤ 0xDBFF)) : CodePoint digits unicode
  | pair {first second : Text} {high low : Nat} (hfirst : hexNumber first = some high)
      (hsurrogate : 0xD800 ≤ high ∧ high ≤ 0xDBFF) (hsecond : hexNumber second = some low) :
      CodePoint (first ++ '\\' :: 'u' :: second) (0x10000 + high % 1024 * 1024 + low % 1024)

/-- A text and what may stand for it between two quotes. -/
inductive Spells : Text → Text → Prop where
  | nil : Spells [] []
  | char {c : Char} {text spelling : Text} (hquote : c ≠ '"') (hescape : c ≠ '\\')
      (h : Spells text spelling) : Spells (c :: text) (c :: spelling)
  | escape {c letter : Char} {text spelling : Text} (hletter : unescape letter = some c)
      (h : Spells text spelling) : Spells (c :: text) ('\\' :: letter :: spelling)
  | unicode {digits : Text} {unicode : Nat} {text spelling : Text}
      (hdigits : CodePoint digits unicode)
      (h : Spells text spelling) :
      Spells (codePointToUTF8 unicode ++ text) ('\\' :: 'u' :: (digits ++ spelling))

/-- A code unit has four digits. -/
theorem hexNumber_parts {digits : Text} {n : Nat} (h : hexNumber digits = some n) :
    ∃ a b c d, digits = [a, b, c, d] := by
  rw [hexNumber] at h
  split at h
  · rename_i hlength
    match digits, hlength with
    | [a, b, c, d], _ => exact ⟨a, b, c, d, rfl⟩
  · cases h

/-- Four digits are decoded. -/
theorem decodeUnicodeEscapeSequence_append {digits : Text} {n : Nat}
    (h : hexNumber digits = some n)
    (rest : Text) : decodeUnicodeEscapeSequence (digits ++ rest) = some (n, rest) := by
  obtain ⟨a, b, c, d, rfl⟩ := hexNumber_parts h
  obtain ⟨values, hvalues, rfl⟩ := Option.map_eq_some_iff.mp h
  show (_ : Option (List Nat)).map _ = _
  rw [hvalues, Option.map_some]
  rfl

/-- An escape or a pair of them is decoded. -/
theorem decodeUnicodeCodePoint_append {digits : Text} {n : Nat} (h : CodePoint digits n)
    (rest : Text) :
    decodeUnicodeCodePoint (digits ++ rest) = some (n, rest) := by
  cases h with
  | single h hsurrogate =>
      rw [decodeUnicodeCodePoint, decodeUnicodeEscapeSequence_append h]
      exact if_neg hsurrogate
  | @pair first second high low hfirst hsurrogate hsecond =>
      obtain ⟨a, b, c, d, rfl⟩ := hexNumber_parts hsecond
      rw [List.append_assoc, decodeUnicodeCodePoint, decodeUnicodeEscapeSequence_append hfirst]
      have hnext := decodeUnicodeEscapeSequence_append hsecond rest
      show (if 0xD800 ≤ high ∧ high ≤ 0xDBFF then _ else _) = _
      rw [if_pos hsurrogate]
      simp only [List.cons_append, List.nil_append, List.length_cons] at hnext ⊢
      rw [if_neg (by omega), hnext]
      rfl

/-- A spelling is decoded to its text. -/
theorem decodeChars_of_spells {text spelling : Text} (h : Spells text spelling) {left : Nat}
    (hleft : spelling.length ≤ left) : decodeChars left spelling = some text := by
  induction h generalizing left with
  | nil => cases left <;> rfl
  | char hquote hescape _ ih =>
      cases left with
      | zero => cases hleft
      | succ left =>
          unfold decodeChars
          rw [if_neg hquote, if_neg hescape, ih (Nat.le_of_succ_le_succ hleft), Option.map_some]
  | @escape c letter text spelling hletter _ ih =>
      cases left with
      | zero => cases hleft
      | succ left =>
          have hne : letter ≠ 'u' := by
            rintro rfl
            cases hletter
          have hrest : decodeChars left spelling = some text :=
            ih (by simp only [List.length_cons] at hleft; omega)
          rw [decodeChars, if_neg (by decide), if_pos rfl]
          simp only [if_neg hne, hletter, hrest]
          rfl
  | @unicode digits unicode text spelling hdigits _ ih =>
      cases left with
      | zero => cases hleft
      | succ left =>
          have hrest : decodeChars left spelling = some text := ih
            (by simp only [List.length_cons, List.length_append] at hleft; omega)
          rw [decodeChars, if_neg (by decide), if_pos rfl]
          simp only [if_true, decodeUnicodeCodePoint_append hdigits]
          show (decodeChars left spelling).bind _ = _
          rw [hrest]
          rfl

/-- The same between quotes. -/
theorem decodeString_of_spells {text spelling : Text} (h : Spells text spelling) :
    decodeString ('"' :: (spelling ++ ['"'])) = some text := by
  have hinner : (('"' :: (spelling ++ ['"'])).drop 1).dropLast = spelling := List.dropLast_concat
  rw [decodeString, hinner]
  exact decodeChars_of_spells h le_rfl

/-- Characters that a string literal ends at or goes past. -/
theorem readString_plain {c : Char} (hquote : c ≠ '"') (hescape : c ≠ '\\') (rest : Text) :
    readString (c :: rest) = readString rest := by
  rw [readString, if_neg hquote]
  · exact fun hc _ => hescape hc
  · exact fun _ _ hc _ => hescape hc

/-- Digits that are read are hexadecimal. -/
theorem isSome_of_mapM {digits : Text} {values : List Nat}
    (h : digits.mapM JsonText.hexValue = some values) :
    ∀ digit ∈ digits, (JsonText.hexValue digit).isSome = true := by
  induction digits generalizing values with
  | nil =>
      intro digit hdigit
      cases hdigit
  | cons first rest ih =>
      rw [List.mapM_cons] at h
      obtain ⟨value, hvalue, hrest⟩ := Option.bind_eq_some_iff.mp h
      obtain ⟨others, hothers, -⟩ := Option.bind_eq_some_iff.mp hrest
      intro digit hdigit
      rcases List.mem_cons.mp hdigit with rfl | hmem
      · rw [hvalue]
        rfl
      · exact ih hothers digit hmem

/-- Hexadecimal digits do not end a string. -/
theorem readString_hex {digits : Text} {n : Nat} (h : hexNumber digits = some n) (rest : Text) :
    readString (digits ++ rest) = readString rest := by
  have hplain : ∀ c ∈ digits, c ≠ '"' ∧ c ≠ '\\' := by
    obtain ⟨a, b, c, d, rfl⟩ := hexNumber_parts h
    obtain ⟨values, hvalues, -⟩ := Option.map_eq_some_iff.mp h
    intro digit hdigit
    have hvalue := isSome_of_mapM hvalues digit hdigit
    constructor <;> rintro rfl <;> cases hvalue
  clear h
  induction digits with
  | nil => rfl
  | cons c digits ih =>
      have hc := hplain c List.mem_cons_self
      rw [List.cons_append, readString_plain hc.1 hc.2, ih fun d hd =>
        hplain d (List.mem_cons_of_mem _ hd)]

/-- A spelling ends at the quote. -/
theorem readString_of_spells {text spelling : Text} (h : Spells text spelling) (rest : Text) :
    readString (spelling ++ '"' :: rest) = (true, rest) := by
  induction h with
  | nil =>
      rw [List.nil_append, readString, if_pos rfl]
      · rintro ⟨⟩
      · rintro _ _ ⟨⟩
  | char hquote hescape _ ih => rw [List.cons_append, readString_plain hquote hescape, ih]
  | escape hletter _ ih => rw [List.cons_append, List.cons_append, readString, ih]
  | unicode hdigits _ ih =>
      rw [List.cons_append, List.cons_append, readString, List.append_assoc]
      cases hdigits with
      | single h => rw [readString_hex h, ih]
      | pair hfirst _ hsecond =>
          rw [List.append_assoc, readString_hex hfirst, List.cons_append, List.cons_append,
            readString,
            readString_hex hsecond, ih]

end TallerII.Reader
