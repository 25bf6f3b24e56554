import TallerII.Lib.Separated
import TallerII.ReaderTokens

/-!
# JSON documents

The texts of a value that is nested to some depth (`Document`), and the reader, which takes them
(`readValue_of_document`): blanks where they may be, strings with their escapes, integers of 64
bits and other literals as the nearest double, and of the members with one name the last.
-/

namespace TallerII.Reader

open Lib

/-! ## Numbers -/

/-- A number is an integer when it looks like one and has 64 bits, and otherwise the nearest
double. -/
inductive Number : Json → Text → Prop where
  | integer {digits : Text} {n : Nat} (h : Literal.natural digits = some n) (hn : n < 2 ^ 64) :
      Number (.int n) digits
  | minus {digits : Text} {n : Nat} (h : Literal.natural digits = some n) (hn : n ≤ 2 ^ 63) :
      Number (.int (-n)) ('-' :: digits)
  | real {text : Text} {q d : Rat} (h : Literal.IsLiteral text q)
      (hother : ∀ n, Literal.natural text = some n → 2 ^ 64 ≤ n)
        (hd : binary64.round q = some d) :
      Number (.real d) text
  | minusReal {text : Text} {q d : Rat} (h : Literal.IsLiteral text q)
      (hother : ∀ n, Literal.natural text = some n → 2 ^ 63 < n)
        (hd : binary64.round (-q) = some d) :
      Number (.real d) ('-' :: text)

/-- Digits behind a number do not make it smaller. -/
theorem le_ofDigitChars (digits : Text) (value : Nat) :
    value ≤ Nat.ofDigitChars 10 digits value := by
  induction digits generalizing value with
  | nil => exact le_rfl
  | cons c rest ih =>
      rw [Nat.ofDigitChars_cons]
      have := ih (10 * value + (c.toNat - '0'.toNat))
      omega

/-- A digit is at most nine. -/
theorem toNat_digit_le {c : Char} (h : c.isDigit = true) : c.toNat - '0'.toNat ≤ 9 := by
  simp only [Char.isDigit, Bool.and_eq_true, decide_eq_true_eq, UInt32.le_iff_toNat_le] at h
  have hnine : '9'.val.toNat = 57 := rfl
  have hzero : '0'.toNat = 48 := rfl
  have hval : c.toNat = c.val.toNat := rfl
  omega

/-- The digits of an integer are taken as long as it is not larger than the largest one. -/
theorem decodeInteger_eq {maxIntegerValue : Nat} (hmax : 10 ≤ maxIntegerValue) {digits : Text}
    (hdigits : ∀ c ∈ digits, c.isDigit = true) {value : Nat} (hvalue : value ≤ maxIntegerValue) :
    decodeInteger maxIntegerValue value digits =
      if Nat.ofDigitChars 10 digits value ≤ maxIntegerValue then
        some (Nat.ofDigitChars 10 digits value)
      else none := by
  induction digits generalizing value with
  | nil => exact (if_pos hvalue).symm
  | cons c rest ih =>
      have hc := hdigits c List.mem_cons_self
      have hrest : ∀ d ∈ rest, d.isDigit = true :=
        fun d hd => hdigits d (List.mem_cons_of_mem _ hd)
      have hdigit := toNat_digit_le hc
      have hle := le_ofDigitChars rest (10 * value + (c.toNat - '0'.toNat))
      rw [decodeInteger, if_pos hc, Nat.ofDigitChars_cons]
      dsimp only
      split_ifs with hlarge hfits hfits
      · exfalso
        obtain ⟨hthreshold, hmore | hrest | hlast⟩ := hlarge
        · omega
        · obtain ⟨d, others, rfl⟩ := List.exists_cons_of_ne_nil hrest
          rw [Nat.ofDigitChars_cons] at hle hfits
          have := le_ofDigitChars others
            (10 * (10 * value + (c.toNat - '0'.toNat)) + (d.toNat - '0'.toNat))
          omega
        · omega
      · rfl
      · rw [Nat.mul_comm value 10, ih hrest (by omega), if_pos hfits]
      · by_cases hnext : 10 * value + (c.toNat - '0'.toNat) ≤ maxIntegerValue
        · rw [Nat.mul_comm value 10, ih hrest hnext, if_neg hfits]
        · exfalso
          refine hlarge ⟨by omega, ?_⟩
          by_cases hnil : rest = []
          · subst hnil
            omega
          · exact .inr (.inl hnil)

/-- What is decoded as an integer consists of digits. -/
theorem digits_of_decodeInteger {maxIntegerValue value n : Nat} {text : Text}
    (h : decodeInteger maxIntegerValue value text = some n) : ∀ c ∈ text, c.isDigit = true := by
  induction text generalizing value with
  | nil =>
      intro c hc
      cases hc
  | cons first rest ih =>
      rw [decodeInteger] at h
      split at h
      · rename_i hfirst
        dsimp only at h
        split at h
        · cases h
        · intro c hc
          rcases List.mem_cons.mp hc with rfl | hmem
          · exact hfirst
          · exact ih h c hmem
      · cases h

/-- The digits of a number that is not too large are decoded to it. -/
theorem decodeInteger_natural {maxIntegerValue n : Nat} (hmax : 10 ≤ maxIntegerValue)
    {digits : Text}
    (h : Literal.natural digits = some n) (hn : n ≤ maxIntegerValue) :
    decodeInteger maxIntegerValue 0 digits = some n := by
  obtain ⟨-, hdigits, rfl⟩ := Literal.natural_parts h
  rw [decodeInteger_eq hmax hdigits (Nat.zero_le _), if_pos hn]

/-- Only integers that are not too large are decoded as integers. -/
theorem decodeInteger_other {maxIntegerValue : Nat} (hmax : 10 ≤ maxIntegerValue) {text : Text}
    (hne : text ≠ []) (hother : ∀ n, Literal.natural text = some n → maxIntegerValue < n) :
    decodeInteger maxIntegerValue 0 text = none := by
  cases hdecoded : decodeInteger maxIntegerValue 0 text with
  | none => rfl
  | some n =>
      have hdigits := digits_of_decodeInteger hdecoded
      have hlarge := hother _ (Literal.natural_eq hne hdigits)
      rw [decodeInteger_eq hmax hdigits (Nat.zero_le _), if_neg (by omega)] at hdecoded
      cases hdecoded

/-- A number behind a minus sign: an integer of 64 bits, or a double. -/
theorem decodeNumber_minus (digits : Text) :
    decodeNumber ('-' :: digits) =
      ((decodeInteger (2 ^ 63) 0 digits).map fun n : Nat => Json.int (-(n : Int))).or
        (((Literal.magnitude digits).bind fun q => binary64.round (-q)).map .real) := by
  have hdouble : readDouble ('-' :: digits) =
      (Literal.magnitude digits).bind fun q => binary64.round (-q) := Option.bind_map
  rw [decodeNumber, hdouble]
  cases decodeInteger (2 ^ 63) 0 digits <;> rfl

/-- A number without a sign: an integer of 64 bits, or a double. -/
theorem decodeNumber_of_head {text : Text} (h : text.head? ≠ some '-') :
    decodeNumber text =
      ((decodeInteger (2 ^ 64 - 1) 0 text).map fun n : Nat => Json.int (n : Int)).or
        (((Literal.magnitude text).bind binary64.round).map .real) := by
  have hdouble : readDouble text = (Literal.magnitude text).bind binary64.round := by
    rw [readDouble, Literal.value_of_head h]
  rw [decodeNumber, hdouble]
  · cases decodeInteger (2 ^ 64 - 1) 0 text <;> rfl
  · rintro digits rfl
    exact h rfl

/-- A literal does not begin with a sign. -/
theorem head_of_isLiteral {text : Text} {q : Rat} (h : Literal.IsLiteral text q) :
    text.head? ≠ some '-' := by
  obtain ⟨digit, rest, rfl, hdigit⟩ := h.exists_digit
  intro hminus
  cases hminus
  cases hdigit

/-- The texts of a number are decoded to it. -/
theorem decodeNumber_of_number {value : Json} {text : Text} (h : Number value text) :
    decodeNumber text = some value := by
  cases h with
  | integer h hn =>
      rw [decodeNumber_of_head (head_of_isLiteral (Literal.isLiteral_natural h)),
        decodeInteger_natural (by decide) h (by omega)]
      rfl
  | minus h hn =>
      rw [decodeNumber_minus, decodeInteger_natural (by decide) h hn]
      rfl
  | real h hother hd =>
      have hinteger := decodeInteger_other (by decide : 10 ≤ 2 ^ 64 - 1) h.ne_nil fun n hn =>
        Nat.lt_of_succ_le (hother n hn)
      rw [decodeNumber_of_head (head_of_isLiteral h), hinteger, h.magnitude_eq, Option.bind_some,
        hd]
      rfl
  | minusReal h hother hd =>
      rw [decodeNumber_minus, decodeInteger_other (by decide) h.ne_nil hother, h.magnitude_eq,
        Option.bind_some, hd]
      rfl

/-- The token of a number. -/
theorem readToken_number {value : Json} {text rest : Text} (h : Number value text)
    (hrest : EndsNumber rest) : readToken (text ++ rest) = ({ type := .number, text }, rest) := by
  cases h with
  | integer h => exact (readToken_literal (Literal.isLiteral_natural h) hrest).1
  | minus h => exact (readToken_literal (Literal.isLiteral_natural h) hrest).2
  | real h => exact (readToken_literal h hrest).1
  | minusReal h => exact (readToken_literal h hrest).2

/-! ## Documents -/

/-- A text with blanks around it. -/
def Padded {α : Type} (item : α → Text → Prop) (a : α) (text : Text) : Prop :=
  ∃ front inner back, Blank front ∧ item a inner ∧ Blank back ∧ text = front ++ (inner ++ back)

/-- Nothing around a value is as good as blanks. -/
theorem padded_self {α : Type} {item : α → Text → Prop} {a : α} {text : Text} (h : item a text) :
    Padded item a text :=
  ⟨[], text, [], blank_nil, h, blank_nil, (List.append_nil _).symm⟩

/-- The value of a token. -/
inductive Scalar : Json → Text → Prop where
  | null : Scalar .null "null".toList
  | true : Scalar (.bool true) "true".toList
  | false : Scalar (.bool false) "false".toList
  | number {value : Json} {text : Text} (h : Number value text) : Scalar value text
  | string {text spelling : Text} (h : Spells text spelling) :
      Scalar (.string text) ('"' :: (spelling ++ ['"']))

/-- A name and a value with a colon between them. -/
inductive Member (item : Json → Text → Prop) : Text × Json → Text → Prop where
  | pair {name spelling gap text : Text} {value : Json} (hname : Spells name spelling)
      (hgap : Blank gap)
      (hvalue : Padded item value text) :
      Member item (name, value) ('"' :: (spelling ++ '"' :: (gap ++ ':' :: text)))

/-- Members given one after another, where a later one takes the place of an earlier one. -/
def assignedTo (members : List (String × Json)) (given : List (Text × Json)) :
    List (String × Json) :=
  given.foldl (fun members (name, value) => Json.insertMember (String.ofList name) value members)
    members

/-- The texts of a value that is nested at most to a depth. -/
def Document : Nat → Json → Text → Prop
  | 0, _, _ => False
  | depth + 1, value, text =>
    Scalar value text ∨
    (∃ gap, Blank gap ∧ value = .array [] ∧ text = '[' :: (gap ++ [']'])) ∨
    (∃ gap, Blank gap ∧ value = .object [] ∧ text = '\x7b' :: (gap ++ ['\x7d'])) ∨
    (∃ items inner, Separated (Padded (Document depth)) ',' items inner ∧ value = .array items ∧
      text = '[' :: (inner ++ [']'])) ∨
    ∃ given inner, Separated (Padded (Member (Document depth))) ',' given inner ∧
      value = .object (assignedTo [] given) ∧ text = '\x7b' :: (inner ++ ['\x7d'])

/-! ## Reading documents -/

/-- The text of a value begins with a character that is neither a blank nor a bracket that closes.
-/
theorem document_head {depth : Nat} {value : Json} {text : Text} (h : Document depth value text) :
    ∃ c rest, text = c :: rest ∧ isBlank c = false ∧ c ≠ ']' := by
  cases depth with
  | zero => exact h.elim
  | succ depth =>
      obtain hscalar | ⟨gap, -, -, rfl⟩ | ⟨gap, -, -, rfl⟩ | ⟨items, inner, -, -, rfl⟩ |
        ⟨given, inner, -, -, rfl⟩ := h
      · have hdigit : ∀ {c : Char}, c.isDigit = true → c ≠ ']' := by
          rintro c hc rfl
          cases hc
        cases hscalar with
        | null => exact ⟨'n', _, rfl, rfl, by decide⟩
        | true => exact ⟨'t', _, rfl, rfl, by decide⟩
        | false => exact ⟨'f', _, rfl, rfl, by decide⟩
        | string h => exact ⟨'"', _, rfl, rfl, by decide⟩
        | number h =>
            cases h with
            | integer h =>
                obtain ⟨c, rest, rfl, hc⟩ := (Literal.isLiteral_natural h).exists_digit
                exact ⟨c, rest, rfl, isBlank_digit hc, hdigit hc⟩
            | minus h => exact ⟨'-', _, rfl, rfl, by decide⟩
            | real h =>
                obtain ⟨c, rest, rfl, hc⟩ := h.exists_digit
                exact ⟨c, rest, rfl, isBlank_digit hc, hdigit hc⟩
            | minusReal h => exact ⟨'-', _, rfl, rfl, by decide⟩
      all_goals exact ⟨_, _, rfl, rfl, by decide⟩

/-- Punctuation ends a number. -/
theorem endsNumber_punctuation {c : Char} {type : TokenType} (h : punctuation c = some type)
    (rest : Text) :
    EndsNumber (c :: rest) := by
  rintro d ⟨⟩
  unfold punctuation at h
  split at h <;> cases h <;> decide

/-- Blanks in front change nothing of that. -/
theorem endsNumber_append {gap : Text} (hgap : Blank gap) {rest : Text}
    (hrest : EndsNumber rest) :
    EndsNumber (gap ++ rest) := by
  cases gap with
  | nil => exact hrest
  | cons c gap =>
      rintro d ⟨⟩
      have hblank := hgap c List.mem_cons_self
      simp only [isBlank, Bool.or_eq_true, decide_eq_true_eq] at hblank
      rcases hblank with ((rfl | rfl) | rfl) | rfl <;> decide

/-- The reader takes the texts of a relation, with blanks in front of them. -/
def Reads (readValue : Text → Outcome (Json × Text)) (item : Json → Text → Prop) : Prop :=
  ∀ {value text gap rest}, item value text → Blank gap → EndsNumber rest →
    readValue (gap ++ (text ++ rest)) = .ok (value, rest)

section Values

variable {readValue : Text → Outcome (Json × Text)} {item : Json → Text → Prop}

/-- A value with blanks around it is read up to the blanks behind it. -/
theorem read_padded (hread : Reads readValue item) {value : Json} {text rest : Text}
    (h : Padded item value text) (hrest : EndsNumber rest) :
    ∃ back, Blank back ∧ readValue (text ++ rest) = .ok (value, back ++ rest) := by
  obtain ⟨front, inner, back, hfront, hitem, hback, rfl⟩ := h
  refine ⟨back, hback, ?_⟩
  rw [List.append_assoc, List.append_assoc]
  exact hread hitem hfront (endsNumber_append hback hrest)

/-- A token with blanks in front of it. -/
theorem skipCommentTokens_append {gap : Text} (hgap : Blank gap) {document rest : Text}
    {token : Token}
    (h : readToken document = (token, rest)) (htype : token.type ≠ .comment) :
    skipCommentTokens (gap ++ document) = (token, rest) := by
  have htoken : readToken (gap ++ document) = (token, rest) := by
    rw [readToken_append hgap, h]
  rw [skipCommentTokens_eq, htoken]
  rwa [htoken]

/-- Punctuation behind blanks is the next token. -/
theorem skipCommentTokens_punctuation {gap : Text} (hgap : Blank gap) {c : Char}
    {type : TokenType}
    (h : punctuation c = some type) (rest : Text) :
    skipCommentTokens (gap ++ c :: rest) = ({ type, text := [c] }, rest) := by
  refine skipCommentTokens_append hgap (readToken_punctuation h rest) ?_
  rintro rfl
  unfold punctuation at h
  split at h <;> cases h

/-- An item with a comma behind it is added, and the loop goes on. -/
theorem itemTurn_comma (hread : Reads readValue item) {value : Json} {text : Text}
    (h : Padded item value text) (items : List Json) (rest : Text) :
    itemTurn readValue (items, text ++ ',' :: rest) = .ok (.inr (items ++ [value], rest)) := by
  obtain ⟨back, hback, hvalue⟩ := read_padded hread h (endsNumber_punctuation (c := ',') rfl rest)
  have htoken := skipCommentTokens_punctuation hback (c := ',') rfl rest
  simp only [itemTurn, hvalue, ok_bind, htoken]
  rfl

/-- An item with a bracket behind it ends the array. -/
theorem itemTurn_end (hread : Reads readValue item) {value : Json} {text : Text}
    (h : Padded item value text) (items : List Json) (rest : Text) :
    itemTurn readValue (items, text ++ ']' :: rest)
      = .ok (.inl (.array (items ++ [value]), rest)) := by
  obtain ⟨back, hback, hvalue⟩ := read_padded hread h (endsNumber_punctuation (c := ']') rfl rest)
  have htoken := skipCommentTokens_punctuation hback (c := ']') rfl rest
  simp only [itemTurn, hvalue, ok_bind, htoken]
  rfl

/-- The loop takes items with commas between them up to the bracket. -/
theorem run_itemTurn (hread : Reads readValue item) {items : List Json} {inner : Text}
    (h : Separated (Padded item) ',' items inner) {fuel : Nat} (hfuel : items.length ≤ fuel)
    (before : List Json) (rest : Text) :
    Loop.run .syntaxError (itemTurn readValue) fuel (before, inner ++ ']' :: rest) =
      .ok (.array (before ++ items), rest) := by
  induction h generalizing fuel before with
  | single h =>
      obtain ⟨fuel, rfl⟩ := Nat.exists_eq_add_of_le' hfuel
      exact Loop.run_of_end (itemTurn_end hread h before rest) fuel
  | @cons value items text inner h _ ih =>
      obtain ⟨fuel, rfl⟩ := Nat.exists_eq_add_of_le' (Nat.le_of_add_left_le hfuel)
      rw [List.append_assoc, List.cons_append, Loop.run_of_turn (itemTurn_comma hread h before _),
        ih (by simp only [List.length_cons] at hfuel; omega), List.append_assoc,
        List.singleton_append]

/-- An array of items is read. -/
theorem readArray_of_items (hread : Reads readValue item)
    (hhead : ∀ {value text}, item value text → ∃ c rest, text = c :: rest ∧ isBlank c = false ∧
      c ≠ ']')
    {items : List Json} {inner : Text} (h : Separated (Padded item) ',' items inner)
    (rest : Text) :
    readArray readValue (inner ++ ']' :: rest) = .ok (.array items, rest) := by
  -- the blanks in front of the first item are taken before the loop
  obtain ⟨value, first, behind, ⟨front, text, back, hfront, hitem, hback, rfl⟩, rfl, hother⟩ :=
    h.exists_head
  obtain ⟨c, others, rfl, hblank, hbracket⟩ := hhead hitem
  have hitems :=
    hother (c :: others ++ back) ⟨[], c :: others, back, by simp [Blank], hitem, hback, rfl⟩
  have hspaces : skipSpaces (front ++ (c :: others ++ back) ++ behind ++ ']' :: rest) =
      (c :: others ++ back) ++ behind ++ ']' :: rest := by
    rw [List.append_assoc, List.append_assoc, skipSpaces_append hfront, ← List.append_assoc,
      List.cons_append, List.cons_append, List.cons_append, skipSpaces_cons hblank]
  have hlength := hitems.length_le
  rw [readArray, hspaces]
  split
  · rename_i heq
    cases heq
    exact absurd rfl hbracket
  · refine run_itemTurn hread hitems ?_ [] rest
    rw [List.length_append, List.length_cons]
    omega

/-- The three parts of a member, read one after another. -/
theorem read_member (hread : Reads readValue item) {name : Text} {value : Json} {text : Text}
    (h : Padded (Member item) (name, value) text) {rest : Text} (hrest : EndsNumber rest) :
    ∃ token colon behind back, skipCommentTokens (text ++ rest) = (token, colon) ∧
      token.type = .string ∧
      decodeString token.text = some name ∧ expect .memberSeparator colon = .ok behind ∧
      Blank back ∧ readValue behind = .ok (value, back ++ rest) := by
  obtain ⟨front, inner, back, hfront, hmember, hback, rfl⟩ := h
  cases hmember with
  | @pair _ spelling gap valueText _ hname hgap hvalue =>
      obtain ⟨gapBehind, hgapBehind, hread⟩ :=
        read_padded hread hvalue (endsNumber_append hback hrest)
      have htext : front ++ ('"' :: (spelling ++ '"' :: (gap ++ ':' :: valueText)) ++ back)
          ++ rest =
          front ++ ('"'
            :: (spelling ++ '"' :: (gap ++ ':' :: (valueText ++ (back ++ rest))))) := by
        simp only [List.append_assoc, List.cons_append]
      have htoken :=
        readToken_string
          (readString_of_spells hname (gap ++ ':' :: (valueText ++ (back ++ rest))))
      have hstring : skipCommentTokens (front ++ ('"' :: (spelling ++ '"' ::
          (gap ++ ':' :: (valueText ++ (back ++ rest)))))) =
          ({ type := .string, text := '"' :: (spelling ++ ['"']) },
            gap ++ ':' :: (valueText ++ (back ++ rest))) :=
        skipCommentTokens_append hfront htoken (by simp)
      have hcolon : expect .memberSeparator (gap ++ ':' :: (valueText ++ (back ++ rest))) =
          .ok (valueText ++ (back ++ rest)) := by
        rw [expect, readToken_append hgap, readToken_punctuation (c := ':') rfl]
        rfl
      refine ⟨_, _, _, gapBehind ++ back, htext ▸ hstring, rfl, decodeString_of_spells hname,
        hcolon, ?_, ?_⟩
      · exact fun c hc => (List.mem_append.mp hc).elim (hgapBehind c) (hback c)
      · rw [hread, List.append_assoc]

/-- A member with a comma behind it is assigned, and the loop goes on. -/
theorem memberTurn_comma (hread : Reads readValue item) {name : Text} {value : Json} {text : Text}
    (h : Padded (Member item) (name, value) text) (lastName : Text)
    (members : List (String × Json))
    (rest : Text) :
    memberTurn readValue (lastName, members, text ++ ',' :: rest) =
      .ok (.inr (name, Json.insertMember (String.ofList name) value members, rest)) := by
  obtain ⟨token, colon, behind, back, htoken, hstring, hname, hcolon, hback, hvalue⟩ :=
    read_member hread h (endsNumber_punctuation (c := ',') rfl rest)
  have hcomma : readComma (back ++ ',' :: rest) = .ok (false, rest) := by
    rw [readComma, readToken_append hback, readToken_punctuation (c := ',') rfl]
    rfl
  simp only [memberTurn, htoken, hstring, reduceCtorEq, false_and, if_false, if_true,
    orError_eq_ok.mpr hname, hcolon, hvalue, hcomma, ok_bind, Bool.false_eq_true]

/-- A member with a brace behind it ends the object. -/
theorem memberTurn_end (hread : Reads readValue item) {name : Text} {value : Json} {text : Text}
    (h : Padded (Member item) (name, value) text) (lastName : Text)
    (members : List (String × Json))
    (rest : Text) :
    memberTurn readValue (lastName, members, text ++ '\x7d' :: rest) =
      .ok (.inl (.object (Json.insertMember (String.ofList name) value members), rest)) := by
  obtain ⟨token, colon, behind, back, htoken, hstring, hname, hcolon, hback, hvalue⟩ :=
    read_member hread h (endsNumber_punctuation (c := '\x7d') rfl rest)
  have hcomma : readComma (back ++ '\x7d' :: rest) = .ok (true, rest) := by
    rw [readComma, readToken_append hback, readToken_punctuation (c := '\x7d') rfl]
    rfl
  simp only [memberTurn, htoken, hstring, reduceCtorEq, false_and, if_false, if_true,
    orError_eq_ok.mpr hname, hcolon, hvalue, hcomma, ok_bind]

/-- The loop takes members with commas between them up to the brace. -/
theorem run_memberTurn (hread : Reads readValue item) {given : List (Text × Json)} {inner : Text}
    (h : Separated (Padded (Member item)) ',' given inner) {fuel : Nat}
    (hfuel : given.length ≤ fuel)
    (lastName : Text) (before : List (String × Json)) (rest : Text) :
    Loop.run .syntaxError (memberTurn readValue) fuel
      (lastName, before, inner ++ '\x7d' :: rest) =
      .ok (.object (assignedTo before given), rest) := by
  induction h generalizing fuel lastName before with
  | single h =>
      obtain ⟨fuel, rfl⟩ := Nat.exists_eq_add_of_le' hfuel
      exact Loop.run_of_end (memberTurn_end hread h lastName before rest) fuel
  | @cons member given text inner h _ ih =>
      obtain ⟨fuel, rfl⟩ := Nat.exists_eq_add_of_le' (Nat.le_of_add_left_le hfuel)
      rw [List.append_assoc, List.cons_append,
        Loop.run_of_turn (memberTurn_comma hread h lastName before _),
        ih (by simp only [List.length_cons] at hfuel; omega)]
      rfl

/-- An object of members is read. -/
theorem readObject_of_members (hread : Reads readValue item) {given : List (Text × Json)}
    {inner : Text}
    (h : Separated (Padded (Member item)) ',' given inner) (rest : Text) :
    readObject readValue (inner ++ '\x7d' :: rest)
      = .ok (.object (assignedTo [] given), rest) := by
  have hlength := h.length_le
  refine run_memberTurn hread h ?_ [] [] rest
  rw [List.length_append, List.length_cons]
  omega

/-- An object without members is read. -/
theorem readObject_empty {gap : Text} (hgap : Blank gap) (rest : Text) :
    readObject readValue (gap ++ '\x7d' :: rest) = .ok (.object [], rest) := by
  refine Loop.run_of_end ?_ _
  have htoken := skipCommentTokens_punctuation hgap (c := '\x7d') rfl rest
  simp only [memberTurn, htoken, and_self, if_true]

/-- An array without items is read. -/
theorem readArray_empty {gap : Text} (hgap : Blank gap) (rest : Text) :
    readArray readValue (gap ++ ']' :: rest) = .ok (.array [], rest) := by
  rw [readArray, skipSpaces_append hgap]
  rfl

end Values

/-- Only the text of a number could go on with what is behind it. -/
def Numeric : Json → Prop
  | .int _ | .real _ => True
  | _ => False

/-- The value of a number is numeric. -/
theorem Number.numeric {value : Json} {text : Text} (h : Number value text) : Numeric value := by
  cases h <;> trivial

/-- The values of one token. -/
theorem readValue_scalar {value : Json} {text gap rest : Text} (h : Scalar value text)
    (hgap : Blank gap)
    (hrest : Numeric value → EndsNumber rest) (left : Nat) :
    readValue (left + 1) (gap ++ (text ++ rest)) = .ok (value, rest) := by
  cases h with
  | null =>
      have htoken := skipCommentTokens_append hgap (@readToken_keyword .null _ rfl rest) (by simp)
      simp only [readValue, htoken]
  | true =>
      have htoken := skipCommentTokens_append hgap (@readToken_keyword .true _ rfl rest) (by simp)
      simp only [readValue, htoken]
  | false =>
      have htoken :=
        skipCommentTokens_append hgap (@readToken_keyword .false _ rfl rest) (by simp)
      simp only [readValue, htoken]
  | number h =>
      have htoken :=
        skipCommentTokens_append hgap (readToken_number h (hrest h.numeric)) (by simp)
      simp only [readValue, htoken, orError_eq_ok.mpr (decodeNumber_of_number h)]
      rfl
  | @string _ spelling h =>
      have hquoted : '"' :: (spelling ++ ['"']) ++ rest = '"' :: (spelling ++ '"' :: rest) := by
        rw [List.cons_append, List.append_assoc, List.singleton_append]
      have htoken :=
        skipCommentTokens_append hgap (readToken_string (readString_of_spells h rest)) (by simp)
      rw [hquoted]
      simp only [readValue, htoken, orError_eq_ok.mpr (decodeString_of_spells h)]
      rfl

/-- A reader that takes the texts of the values inside takes those of a value. -/
theorem readValue_succ {depth left : Nat} (hread : Reads (readValue left) (Document depth))
    {value : Json}
    {text gap rest : Text} (h : Document (depth + 1) value text) (hgap : Blank gap)
    (hrest : Numeric value → EndsNumber rest) :
    readValue (left + 1) (gap ++ (text ++ rest)) = .ok (value, rest) := by
  have harray : ∀ inner, readValue (left + 1) (gap ++ ('[' :: (inner ++ [']']) ++ rest)) =
      readArray (readValue left) (inner ++ ']' :: rest) := by
    intro inner
    have htoken := skipCommentTokens_punctuation hgap (c := '[') rfl (inner ++ ']' :: rest)
    rw [List.cons_append, List.append_assoc, List.singleton_append]
    simp only [readValue, htoken]
  have hobject : ∀ inner, readValue (left + 1) (gap ++ ('\x7b' :: (inner ++ ['\x7d']) ++ rest)) =
      readObject (readValue left) (inner ++ '\x7d' :: rest) := by
    intro inner
    have htoken := skipCommentTokens_punctuation hgap (c := '\x7b') rfl (inner ++ '\x7d' :: rest)
    rw [List.cons_append, List.append_assoc, List.singleton_append]
    simp only [readValue, htoken]
  obtain hscalar | ⟨inner, hblank, rfl, rfl⟩ | ⟨inner, hblank, rfl, rfl⟩ | ⟨items, inner, hitems,
      rfl, rfl⟩ |
    ⟨given, inner, hgiven, rfl, rfl⟩ := h
  · exact readValue_scalar hscalar hgap hrest left
  · rw [harray, readArray_empty hblank]
  · rw [hobject, readObject_empty hblank]
  · rw [harray, readArray_of_items hread document_head hitems]
  · rw [hobject, readObject_of_members hread hgiven]

/-- A reader that has stack enough takes the texts of a value. -/
theorem readValue_of_document {depth left : Nat} (hleft : depth ≤ left) :
    Reads (readValue left) (Document depth) := by
  induction depth generalizing left with
  | zero =>
      intro value text gap rest h
      exact h.elim
  | succ depth ih =>
      intro value text gap rest h hgap hrest
      obtain ⟨left, rfl⟩ := Nat.exists_eq_add_of_le' (Nat.le_of_add_left_le hleft)
      exact readValue_succ (ih (Nat.le_of_succ_le_succ hleft)) h hgap fun _ => hrest

/-- Each text of a value that is not nested too deep is accepted, with blanks in front of it and
whatever is behind it, if that does not go on with a number. -/
theorem parse_of_document {value : Json} {text gap rest : Text}
    (h : Document stackLimit value text)
    (hgap : Blank gap) (hrest : Numeric value → EndsNumber rest) :
    parse (gap ++ (text ++ rest)) = .ok (some value) := by
  rw [parse, show stackLimit = 999 + 1 from rfl,
    readValue_succ (readValue_of_document le_rfl) h hgap hrest]

/-- A document with a second one right behind it. -/
theorem parse_of_document_pair :
    parse " [null,\"a\"]12".toList = .ok (some (.array [.null, .string ['a']])) := by
  have hstring : Scalar (.string ['a']) "\"a\"".toList :=
    .string (.char (by decide) (by decide) .nil)
  have hdocument : Document stackLimit (.array [.null, .string ['a']]) "[null,\"a\"]".toList :=
    .inr (.inr (.inr (.inl ⟨_, _,
      .cons (padded_self (.inl .null)) (.single (padded_self (.inl hstring))), rfl, rfl⟩)))
  have hblank : Blank [' '] := by
    intro c hc
    rw [List.mem_singleton.mp hc]
    rfl
  exact @parse_of_document _ _ [' '] "12".toList hdocument hblank fun hnumeric => hnumeric.elim

end TallerII.Reader
