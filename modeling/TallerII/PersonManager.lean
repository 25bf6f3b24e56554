import TallerII.Manager

/-!
# Accounts and their indices

The part of `PersonManager` that registers, updates and deletes users and keeps the indices of
skills and positions, and the searches over those indices. An operation returns its result or its
exception together with the store it leaves: a throw keeps what was written before it.
-/

namespace TallerII.PersonManager

open Manager Lib.Delimited

/-! ## The indices -/

/-- `split` at commas. -/
def split (mails : Text) : List Text :=
  getlines ',' mails

/-- The mails that remain when one is left out, joined again with commas. -/
def withoutMail (userMail mails : Text) : Text :=
  removePiece ',' userMail mails

/-- The value of an index name once a mail is added to it. -/
def withMail (userMail : Text) : Option Text → Text
  | some mails => mails ++ [','] ++ userMail
  | none => userMail

/-- `saveSkill`. -/
def saveSkill (db : DB) (skill : Skill) (userMail : Text) : DB :=
  let skillName := lower skill.name
  saveUserSkillKey db skillName (withMail userMail (getUserSkillKey db skillName))

/-- `saveSkills`. -/
def saveSkills (db : DB) (skills : List Skill) (userMail : Text) : DB :=
  skills.foldl (fun db skill => saveSkill db skill userMail) db

/-- `savePosition`. -/
def savePosition (db : DB) (positionTitle userMail : Text) : DB :=
  saveUserJobPositionKey db positionTitle
    (withMail userMail (getUserJobPositionKey db positionTitle))

/-- `savePositions`. -/
def savePositions (db : DB) (positions : List WorkHistory) (userMail : Text) : DB :=
  positions.foldl (fun db job => savePosition db (lower job.positionTitle) userMail) db

/-- `deleteUserFromSkill`. -/
def deleteUserFromSkill (db : DB) (skillName userMail : Text) : Except Exn Unit × DB :=
  match getUserSkillKey db skillName with
  | none => (.error .badImplementation, db)
  | some output =>
    let newUsers := withoutMail userMail output
    if newUsers = [] then (.ok (), deleteUserSkillKey db skillName)
    else (.ok (), saveUserSkillKey db skillName newUsers)

/-- `deleteUserFromJobPosition`. The list is read under the title in lower case. What is written
or deleted is found under the title as it is, and the key deleted is one of the skill index. -/
def deleteUserFromJobPosition (db : DB) (jobPosition userMail : Text) : Except Exn Unit × DB :=
  match getUserJobPositionKey db (lower jobPosition) with
  | none => (.error .badImplementation, db)
  | some output =>
    let newUsers := withoutMail userMail output
    if newUsers = [] then (.ok (), deleteUserSkillKey db jobPosition)
    else (.ok (), saveUserJobPositionKey db jobPosition newUsers)

/-- A loop whose body may throw. -/
def forEach {α : Type} (body : DB → α → Except Exn Unit × DB) :
    DB → List α → Except Exn Unit × DB
  | db, [] => (.ok (), db)
  | db, item :: items =>
    match body db item with
    | (.ok _, db) => forEach body db items
    | (.error e, db) => (.error e, db)

/-! ## Registering -/

/-- `generateID`. A counter at the largest `long` has no successor. -/
def generateID (db : DB) : Except Exn Long × DB :=
  match db.existsKey lastID with
  | none => (.ok 1, db.putKey lastID (.text (toString 1)))
  | some last =>
    match stol last.asText with
    | .error e => (.error e, db)
    | .ok lastId =>
      if lastId = Int64.maxValue then (.error .undefinedBehaviour, db)
      else (.ok (lastId + 1), db.putKey lastID (.text (toString (lastId + 1))))

/-- What `savePerson` writes for a new user. -/
def insertPerson (db : DB) (user : Person) : DB :=
  let db := saveUser db user
  let db := saveUserNameKey db user
  let db := saveUserIdKey db user
  let db := saveUserPasswordKey db user
  let db := saveSkills db user.skills user.email
  let db := savePositions db user.workHistory user.email
  match user.getCurrentJob with
  | some job => savePosition db job.positionTitle user.email
  | none => db

/-- `savePerson`; `forceID` is -1 unless the caller chooses the id. -/
def savePerson (db : DB) (juser : Json) (forceID : Long) : Except Exn Long × DB :=
  match Person.ofJson juser with
  | .error e => (.error e, db)
  | .ok user =>
    if userExistsMail db user.email then (.error .userAlreadyExists, db)
    else
      match if forceID ≠ -1 then (.ok forceID, db) else generateID db with
      | (.error e, db) => (.error e, db)
      | (.ok uniqueId, db) =>
        (.ok uniqueId, insertPerson db { user with id := uniqueId, totRecommendations := 0 })

/-! ## Updating -/

/-- `updateName`. -/
def updateName (db : DB) (newUser oldUser : Person) : DB :=
  if oldUser.getFullName ≠ newUser.getFullName then
    saveUserNameKey (deleteUserNameKey db oldUser) newUser
  else db

/-- The skills of the new profile that the old one does not have. -/
def addedSkills (newUser oldUser : Person) : List Skill :=
  newUser.skills.filter fun skill => ! oldUser.skills.any (·.name = lower skill.name)

/-- The skills of the old profile that the new one does not have. -/
def removedSkills (newUser oldUser : Person) : List Skill :=
  oldUser.skills.filter fun skill => ! newUser.skills.any (·.name = skill.name)

/-- `updateSkills`. -/
def updateSkills (db : DB) (newUser oldUser : Person) : Except Exn Unit × DB :=
  let db := (addedSkills newUser oldUser).foldl
    (fun db skill => saveSkill db skill newUser.email) db
  forEach (fun db skill => deleteUserFromSkill db skill.name newUser.email) db
    (removedSkills newUser oldUser)

/-- The positions of the new profile whose title in lower case is not a title of the old one. -/
def addedPositions (newUser oldUser : Person) : List WorkHistory :=
  newUser.workHistory.filter fun job =>
    ! oldUser.workHistory.any (·.positionTitle = lower job.positionTitle)

/-- The positions of the old profile whose title is not a title of the new one. -/
def removedPositions (newUser oldUser : Person) : List WorkHistory :=
  oldUser.workHistory.filter fun job =>
    ! newUser.workHistory.any (·.positionTitle = job.positionTitle)

/-- `updateWorkHistory`. -/
def updateWorkHistory (db : DB) (newUser oldUser : Person) : Except Exn Unit × DB :=
  let db := (addedPositions newUser oldUser).foldl
    (fun db job => savePosition db (lower job.positionTitle) newUser.email) db
  forEach (fun db job => deleteUserFromJobPosition db job.positionTitle newUser.email) db
    (removedPositions newUser oldUser)

/-- `updatePassword`. -/
def updatePassword (db : DB) (newUser oldUser : Person) : DB :=
  if oldUser.password ≠ newUser.password then
    saveUserPasswordKey (deleteUserPasswordKey db oldUser) newUser
  else db

/-- The record that `updateUser` saves: an empty password or place is filled from the old one, and
the recommendations are kept. -/
def mergeUser (newUser oldUser : Person) : Person :=
  { newUser with
    totRecommendations := oldUser.totRecommendations
    password := if newUser.password = [] then oldUser.password else newUser.password
    location := if newUser.location.isEmpty then oldUser.location else newUser.location }

/-- `updateUser`. -/
def updateUser (db : DB) (juser : Json) : Except Exn Long × DB :=
  match Person.ofJson juser with
  | .error e => (.error e, db)
  | .ok newUser =>
    match getUserById db newUser.id with
    | .error (.userNotFoundId _) => (.error (.userNotFoundId newUser.id), db)
    | .error (.userNotFoundMail _) => (.error (.userNotFoundId newUser.id), db)
    | .error e => (.error e, db)
    | .ok oldUser =>
      let newUser := { newUser with email := oldUser.email }
      let db := updateName db newUser oldUser
      match updateSkills db newUser oldUser with
      | (.error e, db) => (.error e, db)
      | (.ok _, db) =>
        match updateWorkHistory db newUser oldUser with
        | (.error e, db) => (.error e, db)
        | (.ok _, db) =>
          let db := if newUser.password = [] then db else updatePassword db newUser oldUser
          (.ok newUser.id, saveUser db (mergeUser newUser oldUser))

/-! ## Deleting -/

/-- `deletePerson`. Every exception of its body becomes `UserNotFoundException`. -/
def deletePerson (db : DB) (id : Long) : Except Exn Unit × DB :=
  match getUserById db id with
  | .error e => (.error e, db)
  | .ok user =>
    let db := deleteUserIdKey db user
    let db := deleteUserNameKey db user
    let db := deleteUserPasswordKey db user
    match forEach (fun db skill => deleteUserFromSkill db skill.name user.email) db
        user.skills with
    | (.error _, db) => (.error (.userNotFoundId id), db)
    | (.ok _, db) =>
      match forEach (fun db job => deleteUserFromJobPosition db job.positionTitle user.email) db
          user.workHistory with
      | (.error _, db) => (.error (.userNotFoundId id), db)
      | (.ok _, db) => (.ok (), deleteUser db user)

/-! ## Searching -/

/-- `getAllUsers`. -/
def getAllUsers (db : DB) : Except Exn (List Person) :=
  (db.scan Prefix.userMail.chars Prefix.userName.chars).mapM fun entry =>
    Person.ofJson entry.2.parse

/-- `searchBySkill`. -/
def searchBySkill (db : DB) (skillsSearch : List Text) : Except Exn (List Person) :=
  match skillsSearch with
  | [] => .error .undefinedBehaviour
  | first :: _ =>
    match getUserSkillKey db (lower first) with
    | none => .ok []
    | some mails => do
      let usersResult ← (split mails).mapM (getUserByMail db)
      return usersResult.filter (·.hasEverySkill skillsSearch)

/-- `searchByJobPosition`. -/
def searchByJobPosition (db : DB) (jobPositions : List Text) : Except Exn (List Person) :=
  match jobPositions.map lower with
  | [] => .error .undefinedBehaviour
  | first :: rest =>
    match getUserJobPositionKey db first with
    | none => .ok []
    | some mails => do
      let usersResult ← (split mails).mapM (getUserByMail db)
      return usersResult.filter (·.hasEveryPosition (first :: rest))

end TallerII.PersonManager
