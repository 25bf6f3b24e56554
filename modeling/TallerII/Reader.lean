import TallerII.Doubles
import TallerII.Lib.JsonText
import TallerII.Lib.Loop

/-!
# The JSON reader

`Json::Reader` takes tokens from the front of a document, and values from the tokens. A state is
what is left of the document. The errors that it collects are not kept, since nobody asks for
them, nor is the part of a value that a rejected document leaves. The comments are skipped.

The loops have a bound, the length of what they read, which they never reach: `readObject_eq_run`
and `readArray_eq_run`. The bound of `readValue` is the one of the source, its stack limit.
-/

namespace TallerII.Reader

open Lib

/-! ## Tokens -/

/-- `TokenType`. -/
inductive TokenType where
  | endOfStream
  | objectBegin
  | objectEnd
  | arrayBegin
  | arrayEnd
  | string
  | number
  | true
  | false
  | null
  | arraySeparator
  | memberSeparator
  | comment
  | error
deriving DecidableEq, Repr

/-- A token with the characters between its two locations. -/
structure Token where
  type : TokenType
  text : Text
deriving DecidableEq, Repr

/-- The characters between two locations, given what is left of the document there. -/
def between (start current : Text) : Text :=
  start.take (start.length - current.length)

/-- The characters that `skipSpaces` skips. -/
def isBlank (c : Char) : Bool :=
  c = ' ' || c = '\t' || c = '\r' || c = '\n'

/-- `skipSpaces`. -/
def skipSpaces (document : Text) : Text :=
  document.dropWhile isBlank

/-- `match`: a pattern is taken as a whole or not at all. -/
def matchPattern (pattern document : Text) : Bool × Text :=
  if pattern.isPrefixOf document then (true, document.drop pattern.length) else (false, document)

/-- `readCStyleComment`: up to the end of the comment, if there is one. -/
def readCStyleComment : Text → Bool × Text
  | [] => (false, [])
  | c :: rest =>
    if c = '*' ∧ rest.head? = some '/' then (true, rest.tail) else readCStyleComment rest

/-- `readCppStyleComment`: up to the end of the line. -/
def readCppStyleComment : Text → Text
  | [] => []
  | c :: rest =>
    if c = '\n' then rest
    else if c = '\r' then (if rest.head? = some '\n' then rest.tail else rest)
    else readCppStyleComment rest

/-- `readComment`, behind its first slash. -/
def readComment : Text → Bool × Text
  | [] => (false, [])
  | c :: rest =>
    if c = '*' then readCStyleComment rest
    else if c = '/' then (true, readCppStyleComment rest)
    else (false, rest)

/-- The fractional part of `readNumber`. -/
def readFraction : Text → Text
  | '.' :: rest => rest.dropWhile Char.isDigit
  | rest => rest

/-- The sign of an exponent. -/
def readSign : Text → Text
  | [] => []
  | c :: rest => if c = '+' ∨ c = '-' then rest else c :: rest

/-- The exponential part of `readNumber`. -/
def readExponent : Text → Text
  | [] => []
  | c :: rest => if c = 'e' ∨ c = 'E' then (readSign rest).dropWhile Char.isDigit else c :: rest

/-- `readNumber`, behind the first character of a number. -/
def readNumber (document : Text) : Text :=
  readExponent (readFraction (document.dropWhile Char.isDigit))

/-- `readString`, behind the first quote. -/
def readString : Text → Bool × Text
  | [] => (false, [])
  | '\\' :: [] => (false, [])
  | '\\' :: _ :: rest => readString rest
  | c :: rest => if c = '"' then (true, rest) else readString rest

/-- What is read of a token that may turn out to be none. -/
def checked (type : TokenType) (read : Bool × Text) : TokenType × Text :=
  (if read.1 then type else .error, read.2)

/-- The switch of `readToken` over the first character. -/
def scanToken (c : Char) (current : Text) : TokenType × Text :=
  if c = '\x7b' then (.objectBegin, current)
  else if c = '\x7d' then (.objectEnd, current)
  else if c = '[' then (.arrayBegin, current)
  else if c = ']' then (.arrayEnd, current)
  else if c = '"' then checked .string (readString current)
  else if c = '/' then checked .comment (readComment current)
  else if c.isDigit ∨ c = '-' then (.number, readNumber current)
  else if c = 't' then checked .true (matchPattern "rue".toList current)
  else if c = 'f' then checked .false (matchPattern "alse".toList current)
  else if c = 'n' then checked .null (matchPattern "ull".toList current)
  else if c = ',' then (.arraySeparator, current)
  else if c = ':' then (.memberSeparator, current)
  else if c.toNat = 0 then (.endOfStream, current)
  else (.error, current)

/-- `readToken`. -/
def readToken (document : Text) : Token × Text :=
  match skipSpaces document with
  | [] => ({ type := .endOfStream, text := [] }, [])
  | c :: current =>
    let (type, rest) := scanToken c current
    ({ type, text := between (c :: current) rest }, rest)

/-- The loop of `skipCommentTokens`. -/
def skipComments : Nat → Text → Token × Text
  | 0, document => readToken document
  | left + 1, document =>
    if (readToken document).1.type = .comment then skipComments left (readToken document).2
    else readToken document

/-- `skipCommentTokens`: the next token that is no comment. -/
def skipCommentTokens (document : Text) : Token × Text :=
  skipComments document.length document

/-! ## Scalars -/

/-- How reading a value fails: with an error that is collected, or with the exception of the stack
limit. -/
inductive Failure where
  | syntaxError
  | stackLimit
deriving DecidableEq, Repr

/-- What reading gives. -/
abbrev Outcome := Except Failure

/-- An error is collected when there is no value. -/
def orError {α : Type} : Option α → Outcome α
  | none => .error .syntaxError
  | some a => .ok a

/-- The loop of `decodeNumber` over the digits of an integer, with the largest one. -/
def decodeInteger (maxIntegerValue : Nat) : Nat → Text → Option Nat
  | value, [] => some value
  | value, c :: rest =>
    if c.isDigit then
      let digit := c.toNat - '0'.toNat
      let threshold := maxIntegerValue / 10
      if threshold ≤ value ∧ (threshold < value ∨ rest ≠ [] ∨ maxIntegerValue % 10 < digit)
        then none
      else decodeInteger maxIntegerValue (value * 10 + digit) rest
    else none

/-- `decodeNumber`. What is no integer of 64 bits is a double. -/
def decodeNumber (text : Text) : Option Json :=
  let integer :=
    match text with
    | '-' :: digits => (decodeInteger (2 ^ 63) 0 digits).map fun n : Nat => -(n : Int)
    | digits => (decodeInteger (2 ^ 64 - 1) 0 digits).map Int.ofNat
  match integer with
  | some n => some (.int n)
  | none => (readDouble text).map .real

/-- `codePointToUTF8`. -/
def codePointToUTF8 (cp : Nat) : Text :=
  if cp ≤ 0x7f then [Char.ofNat cp]
  else if cp ≤ 0x7FF then [Char.ofNat (0xC0 + cp / 64 % 32), Char.ofNat (0x80 + cp % 64)]
  else if cp ≤ 0xFFFF then
    [Char.ofNat (0xE0 + cp / 4096 % 16), Char.ofNat (0x80 + cp / 64 % 64),
      Char.ofNat (0x80 + cp % 64)]
  else if cp ≤ 0x10FFFF then
    [Char.ofNat (0xF0 + cp / 262144 % 8), Char.ofNat (0x80 + cp / 4096 % 64),
      Char.ofNat (0x80 + cp / 64 % 64), Char.ofNat (0x80 + cp % 64)]
  else []

/-- `decodeUnicodeEscapeSequence`. -/
def decodeUnicodeEscapeSequence : Text → Option (Nat × Text)
  | a :: b :: c :: d :: rest =>
    ([a, b, c, d].mapM JsonText.hexValue).map fun digits =>
      (digits.foldl (fun unicode digit => unicode * 16 + digit) 0, rest)
  | _ => none

/-- `decodeUnicodeCodePoint`. -/
def decodeUnicodeCodePoint (text : Text) : Option (Nat × Text) := do
  let (unicode, rest) ← decodeUnicodeEscapeSequence text
  if 0xD800 ≤ unicode ∧ unicode ≤ 0xDBFF then
    if rest.length < 6 then none
    else
      match rest with
      | '\\' :: 'u' :: rest =>
        let (surrogatePair, rest) ← decodeUnicodeEscapeSequence rest
        some (0x10000 + unicode % 1024 * 1024 + surrogatePair % 1024, rest)
      | _ => none
  else some (unicode, rest)

/-- The character for the letter of an escape. -/
def unescape (escape : Char) : Option Char :=
  if escape = '"' then some '"'
  else if escape = '/' then some '/'
  else if escape = '\\' then some '\\'
  else if escape = 'b' then some (Char.ofNat 8)
  else if escape = 'f' then some (Char.ofNat 12)
  else if escape = 'n' then some '\n'
  else if escape = 'r' then some '\r'
  else if escape = 't' then some '\t'
  else none

/-- The loop of `decodeString` over what is between the quotes. -/
def decodeChars : Nat → Text → Option Text
  | _, [] => some []
  | 0, _ :: _ => none
  | left + 1, c :: rest =>
    if c = '"' then some []
    else if c = '\\' then
      match rest with
      | [] => none
      | escape :: rest =>
        if escape = 'u' then do
          let (unicode, rest) ← decodeUnicodeCodePoint rest
          let decoded ← decodeChars left rest
          some (codePointToUTF8 unicode ++ decoded)
        else do
          let found ← unescape escape
          let decoded ← decodeChars left rest
          some (found :: decoded)
    else (decodeChars left rest).map (c :: ·)

/-- `decodeString` of a token with its quotes. -/
def decodeString (text : Text) : Option Text :=
  let inner := (text.drop 1).dropLast
  decodeChars inner.length inner

/-! ## Values -/

/-- A token of a type, and what is left behind it. -/
def expect (type : TokenType) (document : Text) : Outcome Text :=
  if (readToken document).1.type = type then .ok (readToken document).2 else .error .syntaxError

/-- What is behind a member: whether the object ends, and what is left then. Behind a comment any
token separates members. -/
def readComma (document : Text) : Outcome (Bool × Text) :=
  let (comma, rest) := readToken document
  if comma.type = .objectEnd then .ok (true, rest)
  else if comma.type = .arraySeparator then .ok (false, rest)
  else if comma.type = .comment then
    let (token, rest) := skipCommentTokens rest
    .ok (token.type = .objectEnd, rest)
  else .error .syntaxError

/-- A turn of the loop of `readObject`, with the name of the last member, the members so far and
what is left. An object may end behind a comma only when that name is empty. -/
def memberTurn (readValue : Text → Outcome (Json × Text)) :
    Text × List (String × Json) × Text →
      Outcome ((Json × Text) ⊕ (Text × List (String × Json) × Text))
  | (lastName, members, document) =>
    let (tokenName, rest) := skipCommentTokens document
    if tokenName.type = .objectEnd ∧ lastName = [] then .ok (.inl (.object members, rest))
    else if tokenName.type = .string then do
      let name ← orError (decodeString tokenName.text)
      let rest ← expect .memberSeparator rest
      let (value, rest) ← readValue rest
      let members := Json.insertMember (String.ofList name) value members
      let (last, rest) ← readComma rest
      if last then .ok (.inl (.object members, rest)) else .ok (.inr (name, members, rest))
    else .error .syntaxError

/-- `readObject`. -/
def readObject (readValue : Text → Outcome (Json × Text)) (document : Text) :
    Outcome (Json × Text) :=
  Loop.run .syntaxError (memberTurn readValue) (document.length + 1) ([], [], document)

/-- A turn of the loop of `readArray`, with the items so far and what is left. -/
def itemTurn (readValue : Text → Outcome (Json × Text)) :
    List Json × Text → Outcome ((Json × Text) ⊕ (List Json × Text))
  | (items, document) => do
    let (value, rest) ← readValue document
    let (token, rest) := skipCommentTokens rest
    if token.type = .arrayEnd then .ok (.inl (.array (items ++ [value]), rest))
    else if token.type = .arraySeparator then .ok (.inr (items ++ [value], rest))
    else .error .syntaxError

/-- `readArray`. -/
def readArray (readValue : Text → Outcome (Json × Text)) (document : Text) :
    Outcome (Json × Text) :=
  match skipSpaces document with
  | ']' :: rest => .ok (.array [], rest)
  | rest => Loop.run .syntaxError (itemTurn readValue) (rest.length + 1) ([], rest)

/-- `readValue`, with what is left of the stack. -/
def readValue : Nat → Text → Outcome (Json × Text)
  | 0, _ => .error .stackLimit
  | left + 1, document =>
    let (token, rest) := skipCommentTokens document
    match token.type with
    | .objectBegin => readObject (readValue left) rest
    | .arrayBegin => readArray (readValue left) rest
    | .number => (orError (decodeNumber token.text)).map (·, rest)
    | .string => (orError (decodeString token.text)).map fun text => (.string text, rest)
    | .true => .ok (.bool true, rest)
    | .false => .ok (.bool false, rest)
    | .null => .ok (.null, rest)
    | _ => .error .syntaxError

/-- `stackLimit_g`. -/
def stackLimit : Nat := 1000

/-- `parse`: the value of a document, if it is accepted. The document is the buffer of a string,
with what there is room for behind its end. -/
def parse (document : Text) : Except Exn (Option Json) :=
  match readValue stackLimit document with
  | .ok (value, _) => .ok (some value)
  | .error .syntaxError => .ok none
  | .error .stackLimit => .error (.runtimeError "Exceeded stackLimit in readValue().")

/-- The value of a document, if `parse` accepts it. -/
def valueOf (document : Text) : Option Json :=
  match parse document with
  | .ok value => value
  | .error _ => none

/-! ## The loops end -/

/-- Reading a number leaves no more than there was. -/
theorem length_readNumber_le (document : Text) :
    (readNumber document).length ≤ document.length := by
  have hdigits : ∀ text : Text, (text.dropWhile Char.isDigit).length ≤ text.length :=
    fun text => (List.dropWhile_sublist _).length_le
  have hfraction : ∀ text : Text, (readFraction text).length ≤ text.length := by
    intro text
    unfold readFraction
    split
    · exact (hdigits _).trans (Nat.le_succ _)
    · exact le_rfl
  have hsign : ∀ text : Text, (readSign text).length ≤ text.length := by
    intro text
    unfold readSign
    split
    · exact le_rfl
    · split
      · exact Nat.le_succ _
      · exact le_rfl
  have hexponent : ∀ text : Text, (readExponent text).length ≤ text.length := by
    intro text
    unfold readExponent
    split
    · exact le_rfl
    · split
      · exact ((hdigits _).trans (hsign _)).trans (Nat.le_succ _)
      · exact le_rfl
  exact (hexponent _).trans ((hfraction _).trans (hdigits _))

/-- The same of a string. -/
theorem length_readString_le (document : Text) :
    (readString document).2.length ≤ document.length := by
  fun_induction readString document with
  | case1 => exact le_rfl
  | case2 => exact Nat.zero_le _
  | case3 c rest ih =>
      simp only [List.length_cons]
      omega
  | case4 => exact Nat.le_succ _
  | case5 => exact Nat.le_succ_of_le ‹_›

/-- The same of a comment between marks. -/
theorem length_readCStyleComment_le (document : Text) :
    (readCStyleComment document).2.length ≤ document.length := by
  fun_induction readCStyleComment document with
  | case1 => exact le_rfl
  | case2 c rest =>
      simp only [List.length_tail, List.length_cons]
      omega
  | case3 => exact Nat.le_succ_of_le ‹_›

/-- The same of a comment up to the end of the line. -/
theorem length_readCppStyleComment_le (document : Text) :
    (readCppStyleComment document).length ≤ document.length := by
  fun_induction readCppStyleComment document with
  | case1 => exact le_rfl
  | case2 => exact Nat.le_succ _
  | case3 =>
      simp only [List.length_tail, List.length_cons]
      omega
  | case4 => exact Nat.le_succ _
  | case5 => exact Nat.le_succ_of_le ‹_›

/-- The same of a comment. -/
theorem length_readComment_le (document : Text) :
    (readComment document).2.length ≤ document.length := by
  unfold readComment
  split
  · exact le_rfl
  · split_ifs
    · exact Nat.le_succ_of_le (length_readCStyleComment_le _)
    · exact Nat.le_succ_of_le (length_readCppStyleComment_le _)
    · exact Nat.le_succ _

/-- The same of a pattern. -/
theorem length_matchPattern_le (pattern document : Text) :
    (matchPattern pattern document).2.length ≤ document.length := by
  unfold matchPattern
  split
  · simp
  · exact le_rfl

/-- A choice leaves no more when neither branch does. -/
theorem length_ite_le {p : Prop} [Decidable p] {bound : Nat} {left right : TokenType × Text}
    (hleft : left.2.length ≤ bound) (hright : right.2.length ≤ bound) :
    (if p then left else right).2.length ≤ bound := by
  split <;> assumption

/-- The rest of a token leaves no more than there was. -/
theorem length_scanToken_le (c : Char) (current : Text) :
    (scanToken c current).2.length ≤ current.length := by
  unfold scanToken
  repeat' refine length_ite_le ?_ ?_
  all_goals first
    | exact le_rfl
    | exact length_readString_le _
    | exact length_readComment_le _
    | exact length_readNumber_le _
    | exact length_matchPattern_le _ _

/-- Each token but the last takes something. -/
theorem length_readToken_lt {document : Text} (h : (readToken document).1.type ≠ .endOfStream) :
    (readToken document).2.length < document.length := by
  have hspaces : (skipSpaces document).length ≤ document.length :=
    (List.dropWhile_sublist _).length_le
  unfold readToken at h ⊢
  split at h
  · exact absurd rfl h
  · rename_i c current heq
    rw [heq] at hspaces
    exact (length_scanToken_le c current).trans_lt hspaces

/-- A token that is not the end takes a character. -/
theorem length_skipComments_lt {left : Nat} {document : Text}
    (h : (skipComments left document).1.type ≠ .endOfStream) :
    (skipComments left document).2.length < document.length := by
  induction left generalizing document with
  | zero => exact length_readToken_lt h
  | succ left ih =>
      rw [skipComments] at h ⊢
      split at h
      · rename_i hcomment
        have htoken : (readToken document).2.length < document.length :=
          length_readToken_lt (by rw [hcomment]; decide)
        rw [if_pos hcomment]
        exact (ih h).trans htoken
      · rename_i hother
        rw [if_neg hother]
        exact length_readToken_lt h

/-- The same behind all comments. -/
theorem length_skipCommentTokens_lt {document : Text}
    (h : (skipCommentTokens document).1.type ≠ .endOfStream) :
    (skipCommentTokens document).2.length < document.length :=
  length_skipComments_lt h

/-- Reading a token leaves no more than there was. -/
theorem length_readToken_le (document : Text) :
    (readToken document).2.length ≤ document.length := by
  have hspaces : (skipSpaces document).length ≤ document.length :=
    (List.dropWhile_sublist _).length_le
  unfold readToken
  split
  · exact Nat.zero_le _
  · rename_i c current heq
    rw [heq] at hspaces
    exact (length_scanToken_le c current).trans (Nat.le_of_succ_le hspaces)

/-- The same behind some comments. -/
theorem length_skipComments_le (left : Nat) (document : Text) :
    (skipComments left document).2.length ≤ document.length := by
  induction left generalizing document with
  | zero => exact length_readToken_le document
  | succ left ih =>
      rw [skipComments]
      split
      · exact (ih _).trans (length_readToken_le document)
      · exact length_readToken_le document

/-- A reader that takes something from the front of a document. -/
def Takes (readValue : Text → Outcome (Json × Text)) : Prop :=
  ∀ {document value rest}, readValue document = .ok (value, rest) → rest.length < document.length

section Loops

variable {readValue : Text → Outcome (Json × Text)}

/-- A token that is expected takes a character. -/
theorem length_expect_lt {type : TokenType} (htype : type ≠ .endOfStream) {document rest : Text}
    (h : expect type document = .ok rest) : rest.length < document.length := by
  rw [expect] at h
  split at h
  · rename_i hfound
    cases h
    exact length_readToken_lt (by rwa [hfound])
  · cases h

/-- So does a comma or an end. -/
theorem length_readComma_lt {document rest : Text} {last : Bool}
    (h : readComma document = .ok (last, rest)) : rest.length < document.length := by
  rw [readComma] at h
  dsimp only at h
  split_ifs at h with hend hcomma hcomment <;> cases h
  · exact length_readToken_lt (by rw [hend]; decide)
  · exact length_readToken_lt (by rw [hcomma]; decide)
  · refine (length_skipComments_le _ _).trans_lt (length_readToken_lt ?_)
    rw [hcomment]
    decide

/-- A value is given when there is one. -/
theorem orError_eq_ok {α : Type} {option : Option α} {a : α} :
    orError option = .ok a ↔ option = some a := by
  cases option with
  | none => exact ⟨nofun, nofun⟩
  | some b => simp [orError]

/-- What a turn of the loop of an object comes to. -/
theorem memberTurn_ok {lastName document : Text} {members : List (String × Json)}
    {outcome : (Json × Text) ⊕ (Text × List (String × Json) × Text)}
    (h : memberTurn readValue (lastName, members, document) = .ok outcome) :
    (skipCommentTokens document).1.type = .objectEnd ∧ lastName = [] ∧
        outcome = .inl (.object members, (skipCommentTokens document).2) ∨
      ∃ name rest value behind last final,
        (skipCommentTokens document).1.type = .string ∧
        decodeString (skipCommentTokens document).1.text = some name ∧
        expect .memberSeparator (skipCommentTokens document).2 = .ok rest ∧
        readValue rest = .ok (value, behind) ∧ readComma behind = .ok (last, final) ∧
        outcome =
          if last then
            .inl (.object (Json.insertMember (String.ofList name) value members), final)
          else .inr (name, Json.insertMember (String.ofList name) value members, final) := by
  rw [memberTurn] at h
  dsimp only at h
  split at h
  · rename_i hend
    cases h
    exact .inl ⟨hend.1, hend.2, rfl⟩
  · split at h
    · rename_i hstring
      obtain ⟨name, hname, h⟩ := bind_eq_ok.mp h
      obtain ⟨rest, hcolon, h⟩ := bind_eq_ok.mp h
      obtain ⟨⟨value, behind⟩, hvalue, h⟩ := bind_eq_ok.mp h
      obtain ⟨⟨last, final⟩, hcomma, h⟩ := bind_eq_ok.mp h
      refine .inr ⟨name, rest, value, behind, last, final, hstring, ?_, hcolon, hvalue, hcomma,
        ?_⟩
      · exact orError_eq_ok.mp hname
      · cases last <;> cases h <;> rfl
    · cases h

/-- What a turn of the loop of an array comes to. -/
theorem itemTurn_ok {items : List Json} {document : Text}
    {outcome : (Json × Text) ⊕ (List Json × Text)}
    (h : itemTurn readValue (items, document) = .ok outcome) :
    ∃ value behind, readValue document = .ok (value, behind) ∧
      ((skipCommentTokens behind).1.type = .arrayEnd ∧
          outcome = .inl (.array (items ++ [value]), (skipCommentTokens behind).2) ∨
        (skipCommentTokens behind).1.type = .arraySeparator ∧
          outcome = .inr (items ++ [value], (skipCommentTokens behind).2)) := by
  rw [itemTurn] at h
  obtain ⟨⟨value, behind⟩, hvalue, h⟩ := bind_eq_ok.mp h
  refine ⟨value, behind, hvalue, ?_⟩
  dsimp only at h
  split_ifs at h with hend hcomma <;> cases h
  · exact .inl ⟨hend, rfl⟩
  · exact .inr ⟨hcomma, rfl⟩

/-- Each turn takes something, so there are less turns than characters. -/
theorem decreasing_memberTurn (hread : Takes readValue) :
    Loop.Decreasing (fun state => state.2.2.length) (memberTurn readValue) := by
  rintro ⟨lastName, members, document⟩ next h
  obtain ⟨-, -, hinl⟩ | ⟨name, rest, value, behind, last, final, hstring, -, hcolon, hvalue,
      hcomma, houtcome⟩ :=
    memberTurn_ok h
  · cases hinl
  · cases last with
    | true => cases houtcome
    | false =>
        cases houtcome
        have hname : (skipCommentTokens document).2.length < document.length :=
          length_skipCommentTokens_lt (by rw [hstring]; decide)
        have hbehind := length_expect_lt (by decide) hcolon
        have hrest := hread hvalue
        have hfinal := length_readComma_lt hcomma
        show final.length < document.length
        omega

/-- Each turn of the loop over items takes a character. -/
theorem decreasing_itemTurn (hread : Takes readValue) :
    Loop.Decreasing (fun state => state.2.length) (itemTurn readValue) := by
  rintro ⟨items, document⟩ next h
  obtain ⟨value, behind, hvalue, ⟨-, hinl⟩ | ⟨hcomma, hinr⟩⟩ := itemTurn_ok h
  · cases hinl
  · cases hinr
    have hrest := hread hvalue
    exact (length_skipCommentTokens_lt (by rw [hcomma]; decide)).trans hrest

/-- An object takes characters. -/
theorem takes_readObject (hread : Takes readValue) {document rest : Text} {value : Json}
    (h : readObject readValue document = .ok (value, rest)) : rest.length < document.length := by
  refine Loop.ok_of_run (fun state => state.2.2.length ≤ document.length)
    (fun result => result.2.length < document.length) ?_ ?_ le_rfl h
  · intro state next hstate hturn
    exact (decreasing_memberTurn hread hturn).le.trans hstate
  · rintro ⟨lastName, members, left⟩ result hstate hturn
    obtain ⟨hend, -, hinl⟩ | ⟨name, behindName, item, behind, last, final, hstring, -, hcolon,
      hvalue, hcomma, houtcome⟩ := memberTurn_ok hturn
    · cases hinl
      exact (length_skipCommentTokens_lt (by rw [hend]; decide)).trans_le hstate
    · cases last with
      | false => cases houtcome
      | true =>
          cases houtcome
          have hname : (skipCommentTokens left).2.length < left.length :=
            length_skipCommentTokens_lt (by rw [hstring]; decide)
          have hbehind := length_expect_lt (by decide) hcolon
          have hrest := hread hvalue
          have hfinal := length_readComma_lt hcomma
          show final.length < document.length
          exact (hfinal.trans (hrest.trans (hbehind.trans hname))).trans_le hstate

/-- An array takes characters. -/
theorem takes_readArray (hread : Takes readValue) {document rest : Text} {value : Json}
    (h : readArray readValue document = .ok (value, rest)) : rest.length < document.length := by
  have hspaces : (skipSpaces document).length ≤ document.length :=
    (List.dropWhile_sublist _).length_le
  rw [readArray] at h
  split at h
  · rename_i heq
    cases h
    rw [heq] at hspaces
    exact hspaces
  · refine Loop.ok_of_run (fun state => state.2.length ≤ document.length)
      (fun result => result.2.length < document.length) ?_ ?_ hspaces h
    · intro state next hstate hturn
      exact (decreasing_itemTurn hread hturn).le.trans hstate
    · rintro ⟨items, left⟩ result hstate hturn
      obtain ⟨item, behind, hvalue, ⟨hend, hinl⟩ | ⟨-, hinr⟩⟩ := itemTurn_ok hturn
      · cases hinl
        have hrest := hread hvalue
        exact ((length_skipCommentTokens_lt (by rw [hend]; decide)).trans hrest).trans_le hstate
      · cases hinr

end Loops

/-- A value that is mapped was given. -/
theorem map_eq_ok {α β : Type} {f : α → β} {outcome : Outcome α} {result : β}
    (h : outcome.map f = .ok result) : ∃ a, outcome = .ok a ∧ f a = result := by
  cases outcome with
  | error => cases h
  | ok a =>
      cases h
      exact ⟨a, rfl, rfl⟩

/-- Each kind of value begins with a token of its own. -/
theorem readValue_ok {left : Nat} {document rest : Text} {value : Json}
    (h : readValue (left + 1) document = .ok (value, rest)) :
    (skipCommentTokens document).1.type ≠ .endOfStream ∧
      (readObject (readValue left) (skipCommentTokens document).2 = .ok (value, rest) ∨
        readArray (readValue left) (skipCommentTokens document).2 = .ok (value, rest) ∨
        (skipCommentTokens document).2 = rest ∧
          (decodeNumber (skipCommentTokens document).1.text = some value ∨
            (∃ text, value = .string text) ∨ (∃ b, value = .bool b) ∨ value = .null)) := by
  rw [readValue] at h
  dsimp only at h
  split at h
  all_goals rename_i htype
  · exact ⟨by rw [htype]; decide, .inl h⟩
  · exact ⟨by rw [htype]; decide, .inr (.inl h)⟩
  · obtain ⟨number, hnumber, heq⟩ := map_eq_ok h
    cases heq
    refine ⟨by rw [htype]; decide, .inr (.inr ⟨rfl, .inl ?_⟩)⟩
    exact orError_eq_ok.mp hnumber
  · obtain ⟨text, -, heq⟩ := map_eq_ok h
    cases heq
    exact ⟨by rw [htype]; decide, .inr (.inr ⟨rfl, .inr (.inl ⟨text, rfl⟩)⟩)⟩
  · cases h
    exact ⟨by rw [htype]; decide, .inr (.inr ⟨rfl, .inr (.inr (.inl ⟨_, rfl⟩))⟩)⟩
  · cases h
    exact ⟨by rw [htype]; decide, .inr (.inr ⟨rfl, .inr (.inr (.inl ⟨_, rfl⟩))⟩)⟩
  · cases h
    exact ⟨by rw [htype]; decide, .inr (.inr ⟨rfl, .inr (.inr (.inr rfl))⟩)⟩
  · cases h

/-- A value takes at least a token. -/
theorem takes_readValue (left : Nat) : Takes (readValue left) := by
  induction left with
  | zero =>
      intro document value rest h
      cases h
  | succ left ih =>
      intro document value rest h
      obtain ⟨htoken, hvalue⟩ := readValue_ok h
      have hskip := length_skipCommentTokens_lt htoken
      obtain hobject | harray | ⟨hrest, -⟩ := hvalue
      · exact (takes_readObject ih hobject).trans hskip
      · exact (takes_readArray ih harray).trans hskip
      · rwa [← hrest]

/-- A larger bound for the loop over members makes no difference. -/
theorem readObject_eq_run (left : Nat) {document : Text} {bound : Nat}
    (hbound : document.length + 1 ≤ bound) :
    readObject (readValue left) document
      = Loop.run .syntaxError (memberTurn (readValue left)) bound ([], [], document) :=
  (Loop.run_eq_of_lt (decreasing_memberTurn (takes_readValue left)) (Nat.lt_succ_self _)
    hbound).symm

/-- A larger bound for the loop over items makes no difference. -/
theorem readArray_eq_run (left : Nat) {document : Text} {bound : Nat}
    (hbound : document.length + 1 ≤ bound) (hitems : ∀ rest, skipSpaces document ≠ ']' :: rest) :
    readArray (readValue left) document
      = Loop.run .syntaxError (itemTurn (readValue left)) bound ([], skipSpaces document) := by
  have hspaces : (skipSpaces document).length ≤ document.length :=
    (List.dropWhile_sublist _).length_le
  have hloop : readArray (readValue left) document
      = Loop.run .syntaxError (itemTurn (readValue left)) ((skipSpaces document).length + 1)
        ([], skipSpaces document) := by
    rw [readArray]
    split
    · rename_i rest hclosed
      exact absurd hclosed (hitems rest)
    · rfl
  rw [hloop]
  exact (Loop.run_eq_of_lt (decreasing_itemTurn (takes_readValue left)) (Nat.lt_succ_self _)
    ((Nat.succ_le_succ hspaces).trans hbound)).symm

end TallerII.Reader
