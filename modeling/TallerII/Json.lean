import TallerII.Basic
import TallerII.Lib.Binary

/-!
# JSON values

The part of the JSON library that the server uses: reading members, elements and scalars of a
value, with the assertions that can fail, and building objects and arrays. Doubles are exact
rationals. `FastWriter` followed by `Reader` gives a value back, so a stored document is kept as
the value itself (`Store`); `toStyledString` is the text that responses carry.
-/

namespace TallerII

/-- The format of a `double`. -/
def binary64 : Lib.Binary.Format where
  precision := 53
  minExponent := -1074
  maxExponent := 971

/-- `Json::Value`. An `int` stands for both `intValue` and `uintValue`. -/
inductive Json where
  | null
  | bool (value : Bool)
  | int (value : Int)
  | real (value : Rat)
  | string (value : Text)
  | array (items : List Json)
  | object (members : List (String × Json))
deriving Repr, Inhabited

namespace Json

/-! ## Numbers as text -/

/-- Division rounded to the nearest integer, ties to the even one. -/
def roundDiv (num den : Nat) : Nat :=
  let quotient := num / den
  if 2 * (num % den) < den then quotient
  else if 2 * (num % den) > den then quotient + 1
  else if quotient % 2 = 0 then quotient else quotient + 1

/-- The exponent of the leading decimal digit of a positive fraction. -/
def decimalExponent (num den : Nat) : Int :=
  if den ≤ num then Nat.log 10 (num / den) else -(Nat.clog 10 ((den + num - 1) / num) : Int)

/-- The 17 significant digits of a positive fraction, with the exponent of the first. -/
def significantDigits (num den : Nat) : Nat × Int :=
  let exponent := decimalExponent num den
  let scaled :=
    if exponent ≤ 16 then roundDiv (num * 10 ^ (16 - exponent).toNat) den
    else roundDiv num (den * 10 ^ (exponent - 16).toNat)
  if scaled = 10 ^ 17 then (10 ^ 16, exponent + 1) else (scaled, exponent)

/-- Decimals without the zeros at their end. -/
def trimZeros (digits : Text) : Text :=
  (digits.reverse.dropWhile (· = '0')).reverse

/-- A point and the decimals, or nothing when there are none. -/
def pointed (decimals : Text) : Text :=
  if decimals = [] then [] else '.' :: decimals

/-- `valueToString(double)`: the format `%.17g`. -/
def realToString (value : Rat) : Text :=
  if value = 0 then ['0']
  else
    let (mantissa, exponent) := significantDigits value.num.natAbs value.den
    let digits := Nat.toDigits 10 mantissa
    let sign := if value < 0 then ['-'] else []
    sign ++
      if exponent < -4 ∨ 17 ≤ exponent then
        let power := Nat.toDigits 10 exponent.natAbs
        digits.take 1 ++ pointed (trimZeros (digits.drop 1)) ++
          ['e', if exponent < 0 then '-' else '+'] ++
          (if power.length < 2 then '0' :: power else power)
      else if exponent < 0 then
        '0' :: pointed (trimZeros (List.replicate (-exponent - 1).toNat '0' ++ digits))
      else
        digits.take (exponent.toNat + 1) ++ pointed (trimZeros (digits.drop (exponent.toNat + 1)))

/-! ## Reading -/

/-- The member bound to a name. -/
def find (name : String) : List (String × Json) → Option Json
  | [] => none
  | (other, value) :: rest => if other = name then some value else find name rest

/-- `operator[]` with a name. A missing member reads as null, and so does any member of null. -/
def member (value : Json) (name : String) : Except Exn Json :=
  match value with
  | null => .ok null
  | object members => .ok ((find name members).getD null)
  | _ => .error (.json "in Json::Value::resolveReference(key, end): requires objectValue")

/-- `isMember`. -/
def isMember (value : Json) (name : String) : Except Exn Bool :=
  match value with
  | null => .ok false
  | object members => .ok (find name members).isSome
  | _ => .error (.json "in Json::Value::find(key, end, found): requires objectValue or nullValue")

/-- The values that a loop over `size()` reads with `operator[]`. A scalar has size 0; an object
with members has a size, but no elements. -/
def elements (value : Json) : Except Exn (List Json) :=
  match value with
  | array items => .ok items
  | object (_ :: _) =>
    .error (.json "in Json::Value::operator[](ArrayIndex)const: requires arrayValue")
  | _ => .ok []

/-- `asString`. -/
def asString (value : Json) : Except Exn Text :=
  match value with
  | null => .ok []
  | string text => .ok text
  | bool b => .ok (if b then "true".toList else "false".toList)
  | int n => .ok (Lib.Numeral.toText n)
  | real q => .ok (realToString q)
  | _ => .error (.json "Type is not convertible to string")

/-- `asLargestInt`. -/
def asLargestInt (value : Json) : Except Exn Long :=
  match value with
  | int n =>
    if -2 ^ 63 ≤ n ∧ n < 2 ^ 63 then .ok (Int64.ofInt n)
    else .error (.json "LargestUInt out of Int64 range")
  | real q =>
    -- the upper bound is rounded to a double by the comparison
    if -2 ^ 63 ≤ q ∧ q ≤ 2 ^ 63 then .ok (Int64.ofInt (q.num.tdiv q.den))
    else .error (.json "double out of Int64 range")
  | null => .ok 0
  | bool b => .ok (if b then 1 else 0)
  | _ => .error (.json "Value is not convertible to Int64.")

/-- `asInt`. The reader makes a number over the largest `int` an unsigned one. -/
def asInt (value : Json) : Except Exn Int32 :=
  match value with
  | int n =>
    if -2 ^ 31 ≤ n ∧ n < 2 ^ 31 then .ok (Int32.ofInt n)
    else if n < 0 then .error (.json "LargestInt out of Int range")
    else .error (.json "LargestUInt out of Int range")
  | real q =>
    if -2 ^ 31 ≤ q ∧ q ≤ 2 ^ 31 - 1 then .ok (Int32.ofInt (q.num.tdiv q.den))
    else .error (.json "double out of Int range")
  | null => .ok 0
  | bool b => .ok (if b then 1 else 0)
  | _ => .error (.json "Value is not convertible to Int.")

/-- `asDouble`: the nearest double of an integer, which every integer of 64 bits has. -/
def asDouble (value : Json) : Except Exn Rat :=
  match value with
  | int n => .ok ((binary64.round n).getD n)
  | real q => .ok q
  | null => .ok 0
  | bool b => .ok (if b then 1 else 0)
  | _ => .error (.json "Value is not convertible to double.")

/-- `operator==` with a string. -/
def isText (value : Json) (other : Text) : Bool :=
  match value with
  | string text => text = other
  | _ => false

/-! ## Building -/

/-- A `long` stored in a value. -/
def ofLong (value : Long) : Json :=
  .int value.toInt

/-- An `int` stored in a value. -/
def ofInt (value : Int32) : Json :=
  .int value.toInt

/-- Assignment through `operator[]`: members are kept in the order of their names. -/
def insertMember (name : String) (value : Json) :
    List (String × Json) → List (String × Json)
  | [] => [(name, value)]
  | (other, old) :: rest =>
    if name < other then (name, value) :: (other, old) :: rest
    else if name = other then (name, value) :: rest
    else (other, old) :: insertMember name value rest

/-- A default value to which the members are assigned one after another. -/
def ofMembers (members : List (String × Json)) : Json :=
  match members.foldl (fun acc (name, value) => insertMember name value acc) [] with
  | [] => .null
  | sorted => .object sorted

/-- Assignment to a member of a value through `operator[]`. -/
def setMember (value : Json) (name : String) (assigned : Json) : Except Exn Json :=
  match value with
  | null => .ok (.object [(name, assigned)])
  | object members => .ok (.object (insertMember name assigned members))
  | _ => .error (.json "in Json::Value::resolveReference(key, end): requires objectValue")

/-- A default value to which the items are appended one after another. With no item it stays
null. -/
def ofAppended (items : List Json) : Json :=
  match items with
  | [] => .null
  | items => .array items

/-! ## Reading what was built -/

/-- A string is read as itself. -/
@[simp] theorem asString_string (text : Text) : asString (.string text) = .ok text := rfl

/-- A double is read as itself. -/
@[simp] theorem asDouble_real (q : Rat) : asDouble (.real q) = .ok q := rfl

/-- A `long` is read as itself. -/
@[simp] theorem asLargestInt_ofLong (value : Long) : asLargestInt (ofLong value) = .ok value := by
  have hrange : -2 ^ 63 ≤ value.toInt ∧ value.toInt < 2 ^ 63 :=
    ⟨Int64.le_toInt value, Int64.toInt_lt value⟩
  simp only [asLargestInt, ofLong, if_pos hrange, Int64.ofInt_toInt]

/-- An `int` is read as itself. -/
@[simp] theorem asInt_ofInt (value : Int32) : asInt (ofInt value) = .ok value := by
  have hrange : -2 ^ 31 ≤ value.toInt ∧ value.toInt < 2 ^ 31 :=
    ⟨Int32.le_toInt value, Int32.toInt_lt value⟩
  simp only [asInt, ofInt, if_pos hrange, Int32.ofInt_toInt]

/-- A list of appended items is read back, also when it is empty. -/
@[simp] theorem elements_ofAppended (items : List Json) :
    elements (ofAppended items) = .ok items := by
  cases items <;> rfl

/-- The value that the last assignment to a name left. -/
def assigned (name : String) : List (String × Json) → Option Json
  | [] => none
  | (other, value) :: rest =>
    (assigned name rest).or (if other = name then some value else none)

/-- Of the members after an insertion the inserted one is found under its name. -/
theorem find_insertMember (name other : String) (value : Json)
    (members : List (String × Json)) :
    find name (insertMember other value members)
      = if other = name then some value else find name members := by
  induction members with
  | nil => rfl
  | cons first rest ih =>
      obtain ⟨third, old⟩ := first
      simp only [insertMember]
      by_cases hlt : other < third
      · rw [if_pos hlt, find]
      · rw [if_neg hlt]
        by_cases heq : other = third
        · subst heq
          rw [if_pos rfl, find, find]
          split <;> rfl
        · rw [if_neg heq, find, ih, find]
          by_cases hthird : third = name
          · have hother : ¬ other = name := fun h => heq (h.trans hthird.symm)
            rw [if_pos hthird, if_neg hother, if_pos hthird]
          · rw [if_neg hthird, if_neg hthird]

/-- Of members inserted one after another the last one of a name is found. -/
theorem find_foldl_insertMember (name : String) (members acc : List (String × Json)) :
    find name (members.foldl (fun acc member => insertMember member.1 member.2 acc) acc)
      = (assigned name members).or (find name acc) := by
  induction members generalizing acc with
  | nil => rfl
  | cons first rest ih =>
      rw [List.foldl_cons, ih, find_insertMember]
      simp only [assigned]
      cases assigned name rest with
      | some value => rfl
      | none => split <;> rfl

/-- A member of a built object is the value last assigned to its name. -/
@[simp] theorem member_ofMembers (members : List (String × Json)) (name : String) :
    member (ofMembers members) name = .ok ((assigned name members).getD .null) := by
  have hfind := find_foldl_insertMember name members []
  simp only [find, Option.or_none] at hfind
  simp only [ofMembers]
  split
  · rename_i hnil
    rw [hnil] at hfind
    rw [← hfind]
    rfl
  · rw [member, hfind]

/-! ## Styled text -/

/-- The JSON escape of one character of a string. -/
def quoteChar (c : Char) : Text :=
  if c = '"' then ['\\', '"']
  else if c = '\\' then ['\\', '\\']
  else if c.toNat = 8 then ['\\', 'b']
  else if c.toNat = 12 then ['\\', 'f']
  else if c.toNat = 10 then ['\\', 'n']
  else if c.toNat = 13 then ['\\', 'r']
  else if c.toNat = 9 then ['\\', 't']
  else if c.toNat < 32 then
    ['\\', 'u', '0', '0', Nat.digitChar (c.toNat / 16), (Nat.digitChar (c.toNat % 16)).toUpper]
  else [c]

/-- `valueToQuotedStringN`. -/
def valueToQuotedString (text : Text) : Text :=
  '"' :: (text.flatMap quoteChar ++ ['"'])

/-- `StyledWriter::writeIndent` on a new line. -/
def newLine (indent : Nat) : Text :=
  '\n' :: List.replicate indent ' '

/-- Items with a comma between two of them. -/
def commaSeparated (separator : Text) (items : List Text) : Text :=
  (separator).intercalate items

/-- The value is an array or an object with something in it. -/
def isFilled : Json → Bool
  | array (_ :: _) => true
  | object (_ :: _) => true
  | _ => false

/-- `isMultineArray`, given the texts of the children. -/
def isMultineArray (items : List Json) (texts : List Text) : Bool :=
  74 ≤ items.length * 3 || items.any isFilled ||
    74 ≤ 4 + (items.length - 1) * 2 + (texts.map List.length).sum

mutual

/-- `StyledWriter::writeValue` at an indentation. -/
def writeValue (indent : Nat) : Json → Text
  | null => "null".toList
  | bool b => if b then "true".toList else "false".toList
  | int n => Lib.Numeral.toText n
  | real q => realToString q
  | string text => valueToQuotedString text
  | array items =>
    let texts := writeItems (indent + 3) items
    if items.isEmpty then "[]".toList
    else if isMultineArray items texts then
      '[' :: (commaSeparated [','] (texts.map (newLine (indent + 3) ++ ·)) ++
        newLine indent ++ [']'])
    else "[ ".toList ++ commaSeparated [',', ' '] texts ++ " ]".toList
  | object members =>
    if members.isEmpty then "{}".toList
    else '{' :: (commaSeparated [','] (writeMembers (indent + 3) members) ++
      newLine indent ++ ['}'])

/-- The texts of the items of an array. -/
def writeItems (indent : Nat) : List Json → List Text
  | [] => []
  | item :: items => writeValue indent item :: writeItems indent items

/-- The lines of the members of an object. -/
def writeMembers (indent : Nat) : List (String × Json) → List Text
  | [] => []
  | (name, value) :: members =>
    (newLine indent ++ valueToQuotedString name.toList ++ " : ".toList ++ writeValue indent value)
      :: writeMembers indent members

end

/-- `toStyledString`. -/
def toStyledString (value : Json) : Text :=
  writeValue 0 value ++ ['\n']

end Json

end TallerII
