import Mathlib
import TallerII.Lib.Numeral

/-!
# Strings, integers and exceptions of the application server

A `std::string` is a list of characters, one for each of its chars. A `long` is an `Int64` and an
`int` an `Int32`. An operation that throws returns the exception as the `error` case of `Except`.
-/

namespace TallerII

open Lib

/-- A computation that returns peels apart at its first step. -/
theorem bind_eq_ok {ε α β : Type} {first : Except ε α} {rest : α → Except ε β} {result : β} :
    (first >>= rest) = .ok result ↔ ∃ value, first = .ok value ∧ rest value = .ok result := by
  cases first with
  | error e => simp [bind, Except.bind]
  | ok value => simp [bind, Except.bind]

/-- A value goes on with the rest. -/
@[simp] theorem ok_bind {ε α β : Type} (value : α) (rest : α → Except ε β) :
    (Except.ok value >>= rest) = rest value := rfl

/-- An exception skips the rest. -/
@[simp] theorem error_bind {ε α β : Type} (error : ε) (rest : α → Except ε β) :
    (Except.error error >>= rest) = .error error := rfl

/-- A check either throws or is passed. -/
theorem check_eq {ε α : Type} {fails : Prop} [Decidable fails] {error : ε}
    {rest : Unit → Except ε α} :
    (if fails then (throw error : Except ε Unit) >>= rest else rest ())
      = if fails then .error error else rest () := rfl

/-- A check that throws was passed. -/
theorem check_eq_ok {ε α : Type} {fails : Prop} [Decidable fails] {error : ε}
    {rest : Unit → Except ε α} {result : α} :
    (if fails then (throw error : Except ε Unit) >>= rest else rest ()) = .ok result ↔
      ¬ fails ∧ rest () = .ok result := by
  by_cases hfails : fails
  · rw [if_pos hfails]
    simp [hfails, throw, throwThe, MonadExceptOf.throw]
  · simp [hfails]

/-- The contents of a `std::string`. -/
abbrev Text := List Char

/-- `long`, `Json::LargestInt` and `Json::Int64`. -/
abbrev Long := Int64

/-- The exceptions that the modelled functions throw, with the data their handlers read. -/
inductive Exn where
  | userAlreadyExists
  | userNotFoundId (userId : Long)
  | userNotFoundMail (userMail : Text)
  | badImplementation
  | invalidRequest (details : Text)
  | invalidPassword
  | invalidToken
  | tokenExpired
  | notAuthorized
  | nonexistentNotificationToken (userId : Long)
  | errorLoginWithFacebook (details : Text)
  | pictureNotFound (details : Text)
  | errorDeletingFile (details : Text)
  | missingConfiguration (configKey : String)
  | specialRequest
  /-- A failed assertion of the JSON library, with its text. -/
  | json (what : String)
  /-- `std::runtime_error`, with its text. -/
  | runtimeError (what : String)
  /-- `std::invalid_argument` of a numeric conversion, with the name of the function. -/
  | invalidArgument (function : String)
  /-- `std::out_of_range` of a numeric conversion, with the name of the function. -/
  | outOfRange (function : String)
  /-- The language leaves the behaviour undefined; the model stops the call. -/
  | undefinedBehaviour
deriving Repr, DecidableEq

/-- `std::transform` with `::tolower` over a whole string. -/
def lower (text : Text) : Text :=
  text.map Char.toLower

/-- Lower case stays as it is. -/
@[simp] theorem lower_lower (text : Text) : lower (lower text) = lower text := by
  simp [lower, Function.comp_def]

/-- The empty text has no letters. -/
@[simp] theorem lower_nil : lower [] = [] := rfl

/-- `std::to_string` of a `long`. -/
def toString (value : Long) : Text :=
  Numeral.toText value.toInt

/-- Two ids are printed alike only when they are one. -/
@[simp] theorem toString_inj {left right : Long} :
    toString left = toString right ↔ left = right := by
  simp [toString, Int64.toInt_inj]

/-- `std::stol`: the `long` at the front of a string. -/
def stol (text : Text) : Except Exn Long :=
  match Numeral.scan text with
  | none => .error (.invalidArgument "stol")
  | some value =>
    if -2 ^ 63 ≤ value ∧ value < 2 ^ 63 then .ok (Int64.ofInt value)
    else .error (.outOfRange "stol")

/-- `std::stoi`: the `int` at the front of a string. -/
def stoi (text : Text) : Except Exn Int32 :=
  match Numeral.scan text with
  | none => .error (.invalidArgument "stoi")
  | some value =>
    if -2 ^ 31 ≤ value ∧ value < 2 ^ 31 then .ok (Int32.ofInt value)
    else .error (.outOfRange "stoi")

/-- `stol` returns the number at the front of a text when it is a `long`. -/
theorem stol_eq_ok {text : Text} {value : Long} :
    stol text = .ok value ↔ Numeral.scan text = some value.toInt := by
  unfold stol
  constructor
  · intro h
    split at h
    · cases h
    · rename_i number hscan
      split at h
      · rename_i hrange
        obtain rfl := Except.ok.inj h
        have hsame : (Int64.ofInt number).toInt = number :=
          Int64.toInt_ofInt_of_le hrange.1 hrange.2
        rw [hscan, hsame]
      · cases h
  · intro hscan
    rw [hscan]
    dsimp only
    rw [if_pos ⟨Int64.le_toInt value, Int64.toInt_lt value⟩, Int64.ofInt_toInt]

/-- It throws `std::invalid_argument` when there is no number. -/
theorem stol_eq_invalidArgument {text : Text} :
    stol text = .error (.invalidArgument "stol") ↔ Numeral.scan text = none := by
  unfold stol
  constructor
  · intro h
    split at h
    · assumption
    · split at h
      · cases h
      · cases h
  · intro hscan
    rw [hscan]

/-- A printed `long` is read back, whatever follows it except another digit. -/
theorem stol_toString_append (value : Long) (rest : Text)
    (hrest : ∀ c ∈ rest.head?, c.isDigit = false) : stol (toString value ++ rest) = .ok value :=
  stol_eq_ok.mpr (Numeral.scan_toText value.toInt hrest)

/-- A printed `long` is read back. -/
@[simp] theorem stol_toString (value : Long) : stol (toString value) = .ok value := by
  have hread := stol_toString_append value [] (by simp)
  rwa [List.append_nil] at hread

end TallerII
