import TallerII.Accepted
import TallerII.Person

/-!
# Loading what was stored

The accessors see the same in a value and in what is read of it after it was written (`Agree` is
equality but for the messages of failures), and so does whatever is made of them.
-/

namespace TallerII

open Lib Reader

/-- The same result, or failures both. -/
def Agree {α : Type} (one other : Except Exn α) : Prop :=
  one.toOption = other.toOption

namespace Agree

variable {α β : Type} {one other : Except Exn α}

/-- A computation agrees with itself. -/
theorem refl (one : Except Exn α) : Agree one one := rfl

/-- What the one gives is what the other gives. -/
theorem ok {a : α} (h : Agree one other) : other = .ok a → one = .ok a := by
  rintro rfl
  cases one with
  | error e => cases h
  | ok b => exact congrArg Except.ok (Option.some.inj h)

/-- Computations that agree, with what follows them. -/
theorem bind {f g : α → Except Exn β} (h : Agree one other) (hrest : ∀ a, Agree (f a) (g a)) :
    Agree (one >>= f) (other >>= g) := by
  cases one with
  | error e =>
      cases other with
      | error e' => rfl
      | ok b => cases h
  | ok a =>
      cases other with
      | error e' => cases h
      | ok b =>
          obtain rfl : a = b := Option.some.inj h
          exact hrest a

end Agree

/-! ## Values that may be read -/

/-- What is nested at most to a depth is so to a larger one. -/
theorem Reader.Readable.mono {depth more : Nat} {value : Json} (h : Readable depth value)
    (hmore : depth ≤ more) : Readable more value := by
  induction h generalizing more <;> obtain ⟨more, rfl⟩ :=
    Nat.exists_eq_add_of_le' (Nat.le_of_add_left_le hmore)
  case null => exact .null
  case bool b => exact .bool b
  case int hmin hmax => exact .int hmin hmax
  case real h => exact .real h
  case string text => exact .string text
  case array h ih => exact .array fun item hitem => ih item hitem (Nat.le_of_succ_le_succ hmore)
  case object hsorted h ih =>
    exact .object hsorted fun member hmember => ih member hmember (Nat.le_of_succ_le_succ hmore)

/-- A member that is found is one of the members. -/
theorem Json.mem_of_find {name : String} {found : Json} {members : List (String × Json)}
    (h : find name members = some found) : ∃ member ∈ members, member.2 = found := by
  induction members with
  | nil => cases h
  | cons member members ih =>
      rw [find] at h
      split at h
      · exact ⟨member, List.mem_cons_self, Option.some.inj h⟩
      · obtain ⟨other, hother, hfound⟩ := ih h
        exact ⟨other, List.mem_cons_of_mem _ hother, hfound⟩

/-- The members of a value that may be read may be read. -/
theorem Reader.Readable.member {depth : Nat} {value found : Json} {name : String}
    (h : Readable depth value) (hfound : value.member name = .ok found) :
      Readable depth found := by
  cases h with
  | null =>
      cases hfound
      exact .null
  | @object depth members hsorted h =>
      obtain rfl : (Json.find name members).getD .null = found := Except.ok.inj hfound
      cases hmember : Json.find name members with
      | none => exact .null
      | some value =>
          obtain ⟨member, hmem, rfl⟩ := Json.mem_of_find hmember
          exact (h member hmem).mono (Nat.le_succ depth)
  | _ => cases hfound

namespace Json

/-! ## What the accessors see -/

/-- A member of what is read again is read again. -/
theorem find_rereadMembers (name : String) (members : List (String × Json)) :
    find name (rereadMembers members) = (find name members).map reread := by
  induction members with
  | nil => rfl
  | cons member members ih =>
      rw [rereadMembers, find, find, ih]
      split <;> rfl

/-- The same of a member that must be there. -/
theorem member_reread (value : Json) (name : String) :
    (reread value).member name = (value.member name).map reread := by
  cases value with
  | object members =>
      rw [reread, member, member, find_rereadMembers]
      cases find name members <;> simp [Except.map, reread]
  | real q =>
      rw [reread]
      split <;> rfl
  | _ => rfl

/-- The same of the elements. -/
theorem elements_reread (value : Json) :
    (reread value).elements = value.elements.map (List.map reread) := by
  cases value with
  | array items => rw [reread, elements, elements, Except.map, rereadItems_eq]
  | object members => cases members <;> rfl
  | real q =>
      rw [reread]
      split <;> rfl
  | _ => rfl

/-- A string is the same when it is read again. -/
theorem asString_reread (value : Json) : (reread value).asString = value.asString := by
  cases value with
  | real q =>
      rw [reread]
      split
      · rw [asString, asString, (integral_parts ‹_›).2]
      · rfl
  | _ => rfl

/-- A double that looks like an integer is the nearest double of that integer. -/
theorem asDouble_reread {depth : Nat} {value : Json} (h : Readable depth value) :
    (reread value).asDouble = value.asDouble := by
  cases h with
  | real hdouble =>
      rw [reread]
      split
      · rw [asDouble, asDouble, (integral_parts ‹_›).1, Binary.Format.round_of_isNumber hdouble]
        rfl
      · rfl
  | _ => rfl

/-- An integer is the same when it is read again. -/
theorem asLargestInt_reread (value : Json) :
    (reread value).asLargestInt = value.asLargestInt := by
  cases value with
  | real q =>
      rw [reread]
      split
      · rename_i hinteger
        obtain ⟨n, rfl⟩ : ∃ n : Int, q = n := ⟨q.num, (integral_parts hinteger).1.symm⟩
        have hsmall : n.natAbs < 10 ^ 17 := hinteger.2
        have hmin : (-2 ^ 63 : Rat) ≤ n := by exact_mod_cast (by omega : -2 ^ 63 ≤ n)
        have hmax : (n : Rat) ≤ 2 ^ 63 := by exact_mod_cast (by omega : n ≤ 2 ^ 63)
        rw [Rat.num_intCast, asLargestInt, asLargestInt, if_pos ⟨by omega, by omega⟩,
          if_pos ⟨hmin, hmax⟩,
          Rat.num_intCast, Rat.den_intCast, Nat.cast_one, Int.tdiv_one]
      · rfl
  | _ => rfl

/-- An integer and a double that are too large fail with different messages. -/
theorem agree_asInt (value : Json) : Agree (reread value).asInt value.asInt := by
  cases value with
  | real q =>
      rw [reread]
      split
      · rename_i hinteger
        obtain ⟨n, rfl⟩ : ∃ n : Int, q = n := ⟨q.num, (integral_parts hinteger).1.symm⟩
        have hbounds : ((-2 ^ 31 : Rat) ≤ n ∧ (n : Rat) ≤ 2 ^ 31 - 1) ↔
            (-2 ^ 31 ≤ n ∧ n < 2 ^ 31) := by
          have hmin : (-2 ^ 31 : Rat) ≤ n ↔ -2 ^ 31 ≤ n := by exact_mod_cast Iff.rfl
          have hmax : (n : Rat) ≤ 2 ^ 31 - 1 ↔ n ≤ 2 ^ 31 - 1 := by exact_mod_cast Iff.rfl
          rw [hmin, hmax]
          omega
        rw [Rat.num_intCast, asInt, asInt, Rat.num_intCast, Rat.den_intCast, Nat.cast_one,
          Int.tdiv_one]
        simp only [hbounds]
        split
        · rfl
        · split <;> rfl
      · rfl
  | _ => rfl

/-! ## What is made of them -/

section Reading

variable {α : Type}

/-- What is made of a member agrees when it does so for the member that is found. -/
theorem agree_member_of {f g : Json → Except Exn α} {value : Json} {name : String}
    (h : ∀ found, value.member name = .ok found → Agree (f (reread found)) (g found)) :
    Agree ((reread value).member name >>= f) (value.member name >>= g) := by
  rw [member_reread]
  cases hmember : value.member name with
  | error e => exact .refl _
  | ok found => exact h found hmember

/-- Readings of a member agree. -/
theorem agree_member {f g : Json → Except Exn α} (h : ∀ value, Agree (f (reread value)) (g value))
    (value : Json) (name : String) :
    Agree ((reread value).member name >>= f) (value.member name >>= g) :=
  agree_member_of fun found _ => h found

/-- Readings of the elements agree. -/
theorem agree_elements {f g : List Json → Except Exn α}
    (h : ∀ items, Agree (f (items.map reread)) (g items))
    (value : Json) : Agree ((reread value).elements >>= f) (value.elements >>= g) := by
  rw [elements_reread]
  cases value.elements with
  | error e => exact .refl _
  | ok items => exact h items

/-- Readings of all items agree. -/
theorem agree_mapM {read : Json → Except Exn α}
    (hread : ∀ value, Agree (read (reread value)) (read value))
    (items : List Json) : Agree ((items.map reread).mapM read) (items.mapM read) := by
  induction items with
  | nil => exact .refl _
  | cons item items ih =>
      rw [List.map_cons, List.mapM_cons, List.mapM_cons]
      exact (hread item).bind fun _ => ih.bind fun _ => .refl _

end Reading

/-- Strings are read alike. -/
theorem agree_asString (value : Json) : Agree (reread value).asString value.asString := by
  rw [asString_reread]
  exact .refl _

/-- Doubles are read alike. -/
theorem agree_asDouble {depth : Nat} {value : Json} (h : Readable depth value) :
    Agree (reread value).asDouble value.asDouble := by
  rw [asDouble_reread h]
  exact .refl _

/-- Integers are read alike. -/
theorem agree_asLargestInt (value : Json) :
    Agree (reread value).asLargestInt value.asLargestInt := by
  rw [asLargestInt_reread]
  exact .refl _

/-- Strings of members are read alike. -/
theorem agree_stringMember (value : Json) (name : String) :
    Agree ((reread value).stringMember name) (value.stringMember name) :=
  agree_member agree_asString value name

end Json

open Json

/-- Jobs are read alike. -/
theorem agree_workHistory (value : Json) :
    Agree (WorkHistory.ofJson (reread value)) (WorkHistory.ofJson value) := by
  unfold WorkHistory.ofJson
  refine (agree_stringMember value _).bind fun positionTitle => ?_
  refine (agree_stringMember value _).bind fun company => ?_
  refine (agree_stringMember value _).bind fun fromDate => ?_
  exact (agree_stringMember value _).bind fun toDate => .refl _

/-- Skills are read alike. -/
theorem agree_skill (value : Json) :
    Agree (Skill.ofJson (reread value)) (Skill.ofJson value) := by
  unfold Skill.ofJson
  refine (agree_stringMember value _).bind fun name => ?_
  refine (agree_stringMember value _).bind fun description => ?_
  exact (agree_stringMember value _).bind fun category => .refl _

/-- Profiles are read alike. -/
theorem agree_person {depth : Nat} {value : Json} (h : Readable depth value) :
    Agree (Person.ofJson (reread value)) (Person.ofJson value) := by
  unfold Person.ofJson
  refine agree_member (fun found => (agree_asLargestInt found).bind fun id => ?_) value _
  refine (agree_stringMember value _).bind fun firstName => ?_
  refine (agree_stringMember value _).bind fun lastName => ?_
  refine (agree_stringMember value _).bind fun email => ?_
  refine (agree_stringMember value _).bind fun password => ?_
  refine (agree_stringMember value _).bind fun dateOfBirth => ?_
  refine (agree_stringMember value _).bind fun city => ?_
  refine (agree_stringMember value _).bind fun summary => ?_
  refine agree_member (fun found => (agree_asInt found).bind fun totRecommendations => ?_) value _
  refine agree_member_of fun location hlocation => agree_member_of fun found hfound =>
    (agree_asDouble ((h.member hlocation).member hfound)).bind fun latitude => ?_
  refine agree_member_of fun location hlocation => agree_member_of fun found hfound =>
    (agree_asDouble ((h.member hlocation).member hfound)).bind fun longitude => ?_
  refine agree_member (fun found => agree_elements (fun jobs =>
    (agree_mapM agree_workHistory jobs).bind fun workHistory => ?_) found) value _
  exact agree_member (fun found => agree_elements (fun skills =>
    (agree_mapM agree_skill skills).bind fun skills => .refl _) found) value _

end TallerII
