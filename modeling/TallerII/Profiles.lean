import TallerII.Accounts

/-!
# Profiles over many cycles

Every change of a profile reads its record and saves it again. Reading puts some texts in lower
case and writing leaves out lists without items; neither changes a profile that was read before.
`cycles_eq` says so for any number of times that a profile is saved and read.
-/

namespace TallerII.Manager

open PersonManager

/-- One cycle: a profile is saved and the record under its mail is read. -/
def cycle (db : DB) (user : Person) : Except Exn (DB × Person) := do
  let saved := saveUser db user
  let stored ← getUserByMail saved user.email
  return (saved, stored)

/-- Cycles in a row, each with the profile that the one before has read. -/
def cycles : Nat → DB → Person → Except Exn (DB × Person)
  | 0, db, user => .ok (db, user)
  | count + 1, db, user => do
    let (saved, stored) ← cycle db user
    cycles count saved stored

variable {user : Person}

/-- The record of a user who is saved. -/
theorem existsKey_saveUser_own (db : DB) (user : Person) :
    (saveUser db user).existsKey (key .userMail user.email) = some (.json user.serializeMe) := by
  rw [saveUser, DB.existsKey_putKey, if_pos rfl]

/-- Saving the same profile again changes nothing. -/
theorem saveUser_saveUser (db : DB) (user : Person) :
    saveUser (saveUser db user) user = saveUser db user :=
  DB.putKey_same (existsKey_saveUser_own db user)

/-- A cycle gives a normalized profile back. -/
theorem cycle_eq (huser : user.Normalized) (db : DB) :
    cycle db user = .ok (saveUser db user, user) := by
  have hread := getUserByMail_of_stored huser (existsKey_saveUser_own db user)
  simp only [cycle, hread, ok_bind]
  rfl

/-- After the first cycle nothing changes. -/
theorem cycles_succ (huser : user.Normalized) (db : DB) (count : Nat) :
    cycles (count + 1) db user = .ok (saveUser db user, user) := by
  induction count generalizing db with
  | zero =>
      rw [cycles, cycle_eq huser]
      rfl
  | succ count ih =>
      rw [cycles, cycle_eq huser]
      exact (ih (saveUser db user)).trans (by rw [saveUser_saveUser])

/-- A profile that was built from a document is read back as it is, with every position and skill
in its place, after any number of cycles. -/
theorem cycles_eq {personAsJson : Json} (hread : Person.ofJson personAsJson = .ok user)
    (db : DB) :
    getUserByMail (saveUser db user) user.email = .ok user ∧
      ∀ count, cycles (count + 1) db user = .ok (saveUser db user, user) := by
  have huser := Person.normalized_of_ofJson hread
  exact ⟨getUserByMail_of_stored huser (existsKey_saveUser_own db user), cycles_succ huser db⟩

/-- A document with capitals, a place, two positions and a skill. -/
def profileDocument : Json :=
  Json.ofMembers [
    ("first_name", .string "Ana".toList),
    ("email", .string "A@X.ar".toList),
    ("city", .string "Rosario".toList),
    ("location", Json.ofMembers [("latitude", .real (-329 / 10)), ("longitude", .int 7)]),
    ("work_history", .array [
      Json.ofMembers [("position_title", .string "Dev".toList)],
      Json.ofMembers [("company", .string "Acme".toList), ("to_date", .string "2016".toList)]]),
    ("skills", .array [Json.ofMembers [("name", .string "C++".toList)]])]

/-- Its profile after three cycles on the empty store. -/
theorem cycles_profileDocument :
    ∃ user, Person.ofJson profileDocument = .ok user ∧ user.workHistory.length = 2 ∧
      cycles 3 ∅ user = .ok (saveUser ∅ user, user) := by
  obtain ⟨user, hread, hjobs⟩ : ∃ user, Person.ofJson profileDocument = .ok user ∧
      user.workHistory.length = 2 := ⟨_, rfl, rfl⟩
  exact ⟨user, hread, hjobs, (cycles_eq hread ∅).2 2⟩

end TallerII.Manager
