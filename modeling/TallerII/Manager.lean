import TallerII.Store
import TallerII.Person
import TallerII.Lib.Delimited

/-!
# Access to user records and index keys

The functions of `Manager`, which reads and writes the keys of users: the record under the mail,
the mail under the id, the name and the password keys, and the comma-separated mails under a skill
or a position.
-/

namespace TallerII.Manager

/-- `saveUser`: the record under the mail. -/
def saveUser (db : DB) (user : Person) : DB :=
  db.putKey (key .userMail user.email) (.json user.serializeMe)

/-- `userExistsMail`. -/
def userExistsMail (db : DB) (userMail : Text) : Bool :=
  (db.existsKey (key .userMail userMail)).isSome

/-- `userExists`. -/
def userExists (db : DB) (userId : Long) : Bool :=
  (db.existsKey (key .userUuid (toString userId))).isSome

/-- The key under which the name of a user is kept. -/
def userNameKey (user : Person) : Text :=
  key .userName (user.getFullName ++ ['_'] ++ user.email)

/-- `saveUserNameKey`. -/
def saveUserNameKey (db : DB) (user : Person) : DB :=
  db.putKey (userNameKey user) (.text user.email)

/-- `saveUserIdKey`. -/
def saveUserIdKey (db : DB) (user : Person) : DB :=
  db.putKey (key .userUuid (toString user.id)) (.text user.email)

/-- `saveUserPasswordKey`. -/
def saveUserPasswordKey (db : DB) (user : Person) : DB :=
  db.putKey (key .userPassword user.email) (.text user.password)

/-- `getUserByMail`. -/
def getUserByMail (db : DB) (userMail : Text) : Except Exn Person :=
  match db.existsKey (key .userMail userMail) with
  | none => .error (.userNotFoundMail userMail)
  | some suser => Person.ofJson suser.parse

/-- `getUserById`. -/
def getUserById (db : DB) (id : Long) : Except Exn Person :=
  match db.existsKey (key .userUuid (toString id)) with
  | some userMail => getUserByMail db userMail.asText
  | none => .error (.userNotFoundId id)

/-- `deleteUserIdKey`. -/
def deleteUserIdKey (db : DB) (user : Person) : DB :=
  db.deleteKey (key .userUuid (toString user.id))

/-- `deleteUser`. -/
def deleteUser (db : DB) (user : Person) : DB :=
  db.deleteKey (key .userMail user.email)

/-- `deleteUserNameKey`. -/
def deleteUserNameKey (db : DB) (user : Person) : DB :=
  db.deleteKey (userNameKey user)

/-- `deleteUserPasswordKey`. -/
def deleteUserPasswordKey (db : DB) (user : Person) : DB :=
  db.deleteKey (key .userPassword user.email)

/-- The comma-separated mails under a name of an index; `none` is the `KeyNotFound` exception. -/
def indexKey (index : Prefix) (db : DB) (name : Text) : Option Text :=
  (db.existsKey (key index name)).map Entry.asText

/-- `getUserSkillKey`. -/
def getUserSkillKey (db : DB) (skill : Text) : Option Text :=
  indexKey .userSkill db skill

/-- `getUserJobPositionKey`. -/
def getUserJobPositionKey (db : DB) (jobPosition : Text) : Option Text :=
  indexKey .userJobPosition db jobPosition

/-- `saveUserSkillKey`. -/
def saveUserSkillKey (db : DB) (skillName value : Text) : DB :=
  db.putKey (key .userSkill skillName) (.text value)

/-- `deleteUserSkillKey`. -/
def deleteUserSkillKey (db : DB) (skillName : Text) : DB :=
  db.deleteKey (key .userSkill skillName)

/-- `saveUserJobPositionKey`. -/
def saveUserJobPositionKey (db : DB) (jobPosition value : Text) : DB :=
  db.putKey (key .userJobPosition jobPosition) (.text value)

end TallerII.Manager
