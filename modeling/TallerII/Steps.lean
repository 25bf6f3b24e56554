import TallerII.Calls
import TallerII.Index

/-!
# What the account operations do

For each operation one lemma with all its outcomes: what was read before the first write, which
loops returned, and which store is left. The invariants are derived from these lemmas.
-/

namespace TallerII.PersonManager

open Manager

variable {db next : DB} {newUser oldUser user : Person}

/-! ## Registering -/

/-- `generateID` writes the id that it returns, and nothing when it throws. -/
theorem generateID_cases (db : DB) :
    (∃ e, generateID db = (.error e, db)) ∨
      ∃ id, generateID db = (.ok id, db.putKey lastID (.text (toString id))) ∧
        (db.existsKey lastID = none ∧ id = 1 ∨
          ∃ last lastId, db.existsKey lastID = some last ∧ stol last.asText = .ok lastId ∧
            lastId ≠ Int64.maxValue ∧ id = lastId + 1) := by
  unfold generateID
  cases hlast : db.existsKey lastID with
  | none => exact .inr ⟨1, rfl, .inl ⟨rfl, rfl⟩⟩
  | some last =>
      cases hid : stol last.asText with
      | error e => exact .inl ⟨e, by simp [hid]⟩
      | ok lastId =>
          by_cases hmax : lastId = Int64.maxValue
          · exact .inl ⟨.undefinedBehaviour, by simp [hid, hmax]⟩
          · refine .inr ⟨lastId + 1, by simp [hid, hmax], .inr ⟨last, lastId, ?_⟩⟩
            exact ⟨rfl, hid, hmax, rfl⟩

/-- The id of a new user: the one forced, or the next of the counter. -/
def Assigned (db : DB) (forceID id : Long) (next : DB) : Prop :=
  (forceID ≠ -1 ∧ id = forceID ∧ next = db) ∨ (forceID = -1 ∧ generateID db = (.ok id, next))

/-- The record that `savePerson` stores. -/
def registered (user : Person) (id : Long) : Person :=
  { user with id, totRecommendations := 0 }

/-- A registered user has texts in their stored form. -/
theorem normalized_registered (h : user.Normalized) (id : Long) :
    (registered user id).Normalized :=
  ⟨h.firstName, h.lastName, h.email, h.city, h.skills⟩

/-- So has a user with another total. -/
theorem normalized_rated (h : user.Normalized) (total : Int32) :
    ({ user with totRecommendations := total } : Person).Normalized :=
  ⟨h.firstName, h.lastName, h.email, h.city, h.skills⟩

/-- So has an updated user. -/
theorem normalized_merged (h : newUser.Normalized) (oldUser : Person) :
    (mergeUser newUser oldUser).Normalized :=
  ⟨h.firstName, h.lastName, h.email, h.city, h.skills⟩

/-- `savePerson` writes nothing when it throws, and else inserts a user whose mail was free. -/
theorem savePerson_cases (db : DB) (juser : Json) (forceID : Long) :
    (∃ e, savePerson db juser forceID = (.error e, db)) ∨
      ∃ user id counted, Person.ofJson juser = .ok user ∧
        db.existsKey (key .userMail user.email) = none ∧ Assigned db forceID id counted ∧
        savePerson db juser forceID = (.ok id, insertPerson counted (registered user id)) := by
  unfold savePerson
  cases hread : Person.ofJson juser with
  | error e => exact .inl ⟨e, rfl⟩
  | ok user =>
      by_cases hexists : userExistsMail db user.email = true
      · exact .inl ⟨.userAlreadyExists, by simp [hexists]⟩
      · have hfree : db.existsKey (key .userMail user.email) = none := by
          simpa [userExistsMail] using hexists
        by_cases hforce : forceID = -1
        · rcases generateID_cases db with ⟨e, hid⟩ | ⟨id, hid, -⟩
          · exact .inl ⟨e, by simp [hexists, hforce, hid]⟩
          · refine .inr ⟨user, id, _, rfl, hfree, .inr ⟨hforce, hid⟩, ?_⟩
            simp [hexists, hforce, hid, registered]
        · refine .inr ⟨user, forceID, db, rfl, hfree, .inl ⟨hforce, rfl, rfl⟩, ?_⟩
          simp [hexists, hforce, registered]

/-- Only the counter changes when an id is assigned. -/
theorem Assigned.existsKey {forceID id : Long} (h : Assigned db forceID id next) {other : Text}
    (hother : other ≠ lastID) : next.existsKey other = db.existsKey other := by
  rcases h with ⟨-, -, rfl⟩ | ⟨-, hid⟩
  · rfl
  · rcases generateID_cases db with ⟨e, herror⟩ | ⟨assigned, hok, -⟩
    · rw [herror] at hid
      cases hid
    · rw [hok] at hid
      cases hid
      rw [DB.existsKey_putKey, if_neg hother.symm]

/-! ## The writes of a new user -/

/-- The titles that a user is listed under when registered. -/
def listedTitles (user : Person) : List Text :=
  user.workHistory.map (fun job => lower job.positionTitle) ++
    (user.getCurrentJob.map WorkHistory.positionTitle).toList

/-- The names of skills that a user is listed under. -/
def listedSkills (user : Person) : List Text :=
  user.skills.map fun skill => lower skill.name

/-- The four keys that hold a new user. -/
def saveAccount (db : DB) (user : Person) : DB :=
  saveUserPasswordKey (saveUserIdKey (saveUserNameKey (saveUser db user) user) user) user

/-- A registration saves the account and fills the two indexes. -/
theorem insertPerson_eq (db : DB) (user : Person) :
    insertPerson db user
      = addMails .userJobPosition user.email
          (addMails .userSkill user.email (saveAccount db user) (listedSkills user))
          (listedTitles user) := by
  simp only [insertPerson, saveSkills, foldl_saveSkill, savePositions, foldl_savePosition,
    listedTitles, listedSkills, addMails, List.foldl_append]
  cases user.getCurrentJob with
  | none => rfl
  | some job => rfl

/-- What saving an account writes. -/
theorem existsKey_saveAccount (db : DB) (user : Person) (other : Text) :
    (saveAccount db user).existsKey other
      = if key .userPassword user.email = other then some (.text user.password)
        else if key .userUuid (toString user.id) = other then some (.text user.email)
        else if userNameKey user = other then some (.text user.email)
        else if key .userMail user.email = other then some (.json user.serializeMe)
        else db.existsKey other := by
  simp [saveAccount, saveUserPasswordKey, saveUserIdKey, saveUserNameKey, saveUser]

/-- Outside the indexes a registration writes the account alone. -/
theorem existsKey_insertPerson {other : Text} (hskill : ∀ rest, other ≠ key .userSkill rest)
    (hposition : ∀ rest, other ≠ key .userJobPosition rest) :
    (insertPerson db user).existsKey other = (saveAccount db user).existsKey other := by
  rw [insertPerson_eq, existsKey_addMails hposition, existsKey_addMails hskill]

/-- Equal entries are equal values of an index name. -/
theorem indexKey_congr {index : Prefix} {name : Text}
    (h : next.existsKey (key index name) = db.existsKey (key index name)) :
    indexKey index next name = indexKey index db name := by
  rw [indexKey, h, indexKey]

/-- Saving an account leaves the indexes. -/
theorem indexKey_saveAccount {index : Prefix}
    (hindex : index = .userSkill ∨ index = .userJobPosition)
    (db : DB) (user : Person) (name : Text) :
    indexKey index (saveAccount db user) name = indexKey index db name := by
  refine indexKey_congr ?_
  rw [existsKey_saveAccount]
  rcases hindex with rfl | rfl <;> simp [userNameKey]

/-- The entries of skills after a registration. -/
theorem getUserSkillKey_insertPerson (db : DB) (user : Person) (skill : Text) :
    getUserSkillKey (insertPerson db user) skill
      = indexKey .userSkill (addMails .userSkill user.email (saveAccount db user)
          (listedSkills user)) skill := by
  rw [insertPerson_eq]
  exact indexKey_congr (existsKey_addMails (by simp))

/-- The lists of skills once a user is registered. -/
theorem Lists.insertPerson_skill {skill : Text} {mails : List Text}
    (h : Lists (getUserSkillKey db skill) mails)
    (hmail : skill ∈ listedSkills user → Lib.Delimited.Plain ',' user.email) :
    Lists (getUserSkillKey (insertPerson db user) skill)
      (mails ++ List.replicate ((listedSkills user).count skill) user.email) := by
  rw [getUserSkillKey_insertPerson]
  refine Lists.addMails ?_ hmail
  rw [indexKey_saveAccount (.inl rfl)]
  exact h

/-- Nothing before the positions touches their index. -/
theorem getUserJobPositionKey_listed (db : DB) (user : Person) (title : Text) :
    indexKey .userJobPosition (addMails .userSkill user.email (saveAccount db user)
      (listedSkills user)) title = getUserJobPositionKey db title := by
  have hskills := @existsKey_addMails (saveAccount db user) .userSkill user.email
    (listedSkills user) (key .userJobPosition title) (by simp)
  rw [indexKey_congr hskills, indexKey_saveAccount (.inr rfl)]
  rfl

/-- The lists of positions once a user is registered. -/
theorem Lists.insertPerson_position {title : Text} {mails : List Text}
    (h : Lists (getUserJobPositionKey db title) mails)
    (hmail : title ∈ listedTitles user → Lib.Delimited.Plain ',' user.email) :
    Lists (getUserJobPositionKey (insertPerson db user) title)
      (mails ++ List.replicate ((listedTitles user).count title) user.email) := by
  rw [insertPerson_eq]
  refine Lists.addMails ?_ hmail
  rw [getUserJobPositionKey_listed]
  exact h

/-- Registering keeps every position, and makes those of the new user. -/
theorem isSome_getUserJobPositionKey_insertPerson {title : Text}
    (h : (getUserJobPositionKey db title).isSome ∨ title ∈ listedTitles user) :
    (getUserJobPositionKey (insertPerson db user) title).isSome := by
  rw [insertPerson_eq]
  refine isSome_indexKey_addMails (h.imp_left fun hdb => ?_)
  rw [getUserJobPositionKey_listed]
  exact hdb

/-! ## Updating -/

/-- The names under which `updateSkills` adds the mail. -/
def addedNames (newUser oldUser : Person) : List Text :=
  (addedSkills newUser oldUser).map fun skill => lower skill.name

/-- The names from which `updateSkills` takes the mail out. -/
def removedNames (newUser oldUser : Person) : List Text :=
  (removedSkills newUser oldUser).map Skill.name

/-- The titles under which `updateWorkHistory` adds the mail. -/
def addedTitles (newUser oldUser : Person) : List Text :=
  (addedPositions newUser oldUser).map fun job => lower job.positionTitle

/-- The titles from which `updateWorkHistory` takes the mail out. -/
def removedTitles (newUser oldUser : Person) : List Text :=
  (removedPositions newUser oldUser).map WorkHistory.positionTitle

/-- Leaving out the items whose name is that of another one leaves out the names of the others. -/
theorem map_filter_not_any {α β : Type} (name : α → Text) (other : β → Text) (items : List α)
    (others : List β) :
    (items.filter fun item => ! others.any (other · = name item)).map name
      = (items.map name).filter (· ∉ others.map other) := by
  rw [List.filter_map]
  congr 1
  refine List.filter_congr fun item _ => ?_
  rw [Bool.eq_iff_iff]
  simp

/-- How often a name is left when others are taken out. -/
theorem count_filter_not_mem (names others : List Text) (name : Text) :
    (names.filter (· ∉ others)).count name = if name ∈ others then 0 else names.count name := by
  split
  · rename_i hother
    refine List.count_eq_zero_of_not_mem fun hmem => ?_
    have hout := (List.mem_filter.mp hmem).2
    exact of_decide_eq_true hout hother
  · rename_i hnone
    exact List.count_filter (decide_eq_true hnone)

/-- A skill is added unless the old profile has it. -/
theorem addedNames_eq (hnormalized : newUser.Normalized) :
    addedNames newUser oldUser
      = newUser.skillNames.filter (· ∉ oldUser.skillNames) := by
  have hnames : newUser.skillNames = newUser.skills.map fun skill => lower skill.name :=
    (List.map_congr_left fun skill hskill => hnormalized.skills skill hskill).symm
  rw [hnames]
  exact map_filter_not_any (fun skill : Skill => lower skill.name) Skill.name _ _

/-- A skill is removed unless the new profile has it. -/
theorem removedNames_eq (newUser oldUser : Person) :
    removedNames newUser oldUser = oldUser.skillNames.filter (· ∉ newUser.skillNames) :=
  map_filter_not_any Skill.name Skill.name _ _

/-- A title is added in lower case unless that is a title of the old profile. -/
theorem addedTitles_eq (newUser oldUser : Person) :
    addedTitles newUser oldUser
      = (newUser.positionTitles.map lower).filter (· ∉ oldUser.positionTitles) := by
  have htitles : newUser.positionTitles.map lower
      = newUser.workHistory.map fun job => lower job.positionTitle := by
    rw [Person.positionTitles, List.map_map]
    rfl
  rw [htitles]
  exact map_filter_not_any (fun job : WorkHistory => lower job.positionTitle)
    WorkHistory.positionTitle _ _

/-- A title is removed unless the new profile has it. -/
theorem removedTitles_eq (newUser oldUser : Person) :
    removedTitles newUser oldUser
      = oldUser.positionTitles.filter (· ∉ newUser.positionTitles) :=
  map_filter_not_any WorkHistory.positionTitle WorkHistory.positionTitle _ _

/-- An update adds the new skills and takes the old ones away. -/
theorem updateSkills_eq (db : DB) (newUser oldUser : Person) :
    updateSkills db newUser oldUser
      = deleteUserFromSkills newUser.email
          (addMails .userSkill newUser.email db (addedNames newUser oldUser))
          (removedNames newUser oldUser) := by
  simp only [updateSkills, foldl_saveSkill]
  exact forEach_map (fun db name => deleteUserFromSkill db name newUser.email) Skill.name _ _

/-- An update adds the new titles and takes the old ones away. -/
theorem updateWorkHistory_eq (db : DB) (newUser oldUser : Person) :
    updateWorkHistory db newUser oldUser
      = deleteUserFromJobPositions newUser.email
          (addMails .userJobPosition newUser.email db (addedTitles newUser oldUser))
          (removedTitles newUser oldUser) := by
  simp only [updateWorkHistory, foldl_savePosition]
  exact forEach_map (fun db title => deleteUserFromJobPosition db title newUser.email)
    WorkHistory.positionTitle _ _

/-- The last writes of `updateUser`: the password, unless none was given, and the record. -/
def saveUpdated (db : DB) (newUser oldUser : Person) : DB :=
  saveUser (if newUser.password = [] then db else updatePassword db newUser oldUser)
    (mergeUser newUser oldUser)

/-- `updateUser` once both profiles are read. -/
def applyUpdate (db : DB) (newUser oldUser : Person) : Except Exn Long × DB :=
  match updateSkills (updateName db newUser oldUser) newUser oldUser with
  | (.error e, db) => (.error e, db)
  | (.ok _, db) =>
    match updateWorkHistory db newUser oldUser with
    | (.error e, db) => (.error e, db)
    | (.ok _, db) => (.ok newUser.id, saveUpdated db newUser oldUser)

/-- `updateUser` throws before any write, or reads both profiles and applies the new one. -/
theorem updateUser_cases (db : DB) (juser : Json) :
    (∃ e, updateUser db juser = (.error e, db) ∧
      ∀ newUser oldUser, Person.ofJson juser = .ok newUser →
        getUserById db newUser.id ≠ .ok oldUser) ∨
      ∃ newUser oldUser, Person.ofJson juser = .ok newUser ∧
        getUserById db newUser.id = .ok oldUser ∧
        updateUser db juser = applyUpdate db { newUser with email := oldUser.email } oldUser := by
  unfold updateUser
  cases hread : Person.ofJson juser with
  | error e => exact .inl ⟨e, rfl, by simp⟩
  | ok newUser =>
      cases hold : getUserById db newUser.id with
      | error e =>
          have hnone : ∀ other oldUser, Except.ok newUser = (.ok other : Except Exn Person) →
              getUserById db other.id ≠ .ok oldUser := by
            intro other oldUser hsame
            cases hsame
            simp [hold]
          cases e <;> exact .inl ⟨_, by simp only [hold]; rfl, hnone⟩
      | ok oldUser => exact .inr ⟨newUser, oldUser, rfl, hold, by simp only [hold]; rfl⟩

/-- An update that returns: both loops returned, and the record was saved last. -/
theorem applyUpdate_eq_ok {id : Long} :
    applyUpdate db newUser oldUser = (.ok id, next) ↔
      id = newUser.id ∧ ∃ skilled positioned,
        updateSkills (updateName db newUser oldUser) newUser oldUser = (.ok (), skilled) ∧
        updateWorkHistory skilled newUser oldUser = (.ok (), positioned) ∧
        next = saveUpdated positioned newUser oldUser := by
  unfold applyUpdate
  rcases hskills : updateSkills (updateName db newUser oldUser) newUser oldUser with
    ⟨result, skilled⟩
  cases result with
  | error e => simp
  | ok _ =>
      rcases hpositions : updateWorkHistory skilled newUser oldUser with ⟨result, positioned⟩
      cases result with
      | error e => simp [hpositions]
      | ok _ => simp [hpositions, eq_comm]

/-! ## Deleting -/

/-- The three keys that `deletePerson` deletes first. -/
def deleteAccount (db : DB) (user : Person) : DB :=
  deleteUserPasswordKey (deleteUserNameKey (deleteUserIdKey db user) user) user

/-- Deleting the account leaves the lists of mails as they are. -/
theorem indexKey_deleteAccount {index : Prefix}
    (hindex : index = .userSkill ∨ index = .userJobPosition) (db : DB) (user : Person)
    (name : Text) :
    indexKey index (deleteAccount db user) name = indexKey index db name := by
  refine indexKey_congr ?_
  rcases hindex with rfl | rfl <;>
    simp [deleteAccount, deleteUserPasswordKey, deleteUserNameKey, deleteUserIdKey, userNameKey]

/-- Taking the mail out of the lists of skills leaves those of positions as they are. -/
theorem getUserJobPositionKey_of_skilled {result : Except Exn Unit} {skilled : DB}
    (hskilled : deleteUserFromSkills user.email (deleteAccount db user) user.skillNames
      = (result, skilled)) (title : Text) :
    getUserJobPositionKey skilled title = getUserJobPositionKey db title := by
  have hkept := @existsKey_deleteUserFromSkills (deleteAccount db user) user.email
    user.skillNames (key .userJobPosition title) (by simp)
  rw [hskilled] at hkept
  exact (indexKey_congr hkept).trans (indexKey_deleteAccount (.inr rfl) db user title)

/-- `deletePerson` once the profile is read. -/
def applyDelete (db : DB) (id : Long) (user : Person) : Except Exn Unit × DB :=
  match deleteUserFromSkills user.email (deleteAccount db user) user.skillNames with
  | (.error _, db) => (.error (.userNotFoundId id), db)
  | (.ok _, db) =>
    match deleteUserFromJobPositions user.email db user.positionTitles with
    | (.error _, db) => (.error (.userNotFoundId id), db)
    | (.ok _, db) => (.ok (), deleteUser db user)

/-- `deletePerson` throws before any write, or reads the profile and deletes it. -/
theorem deletePerson_cases (db : DB) (id : Long) :
    (∃ e, getUserById db id = .error e ∧ deletePerson db id = (.error e, db)) ∨
      ∃ user, getUserById db id = .ok user ∧
        deletePerson db id = applyDelete db id user := by
  unfold deletePerson
  cases hread : getUserById db id with
  | error e => exact .inl ⟨e, rfl, rfl⟩
  | ok user =>
      refine .inr ⟨user, rfl, ?_⟩
      have hskills :=
        forEach_map (fun db name => deleteUserFromSkill db name user.email) Skill.name
      have hpositions := forEach_map
        (fun db title => deleteUserFromJobPosition db title user.email) WorkHistory.positionTitle
      simp only [hskills, hpositions]
      rfl

/-- A deletion that returns: both loops returned, and the record was deleted last. -/
theorem applyDelete_eq_ok {id : Long} :
    applyDelete db id user = (.ok (), next) ↔
      ∃ skilled positioned,
        deleteUserFromSkills user.email (deleteAccount db user) user.skillNames
          = (.ok (), skilled) ∧
        deleteUserFromJobPositions user.email skilled user.positionTitles
          = (.ok (), positioned) ∧
        next = deleteUser positioned user := by
  unfold applyDelete
  rcases hskills : deleteUserFromSkills user.email (deleteAccount db user) user.skillNames with
    ⟨result, skilled⟩
  cases result with
  | error e => simp
  | ok _ =>
      rcases hpositions : deleteUserFromJobPositions user.email skilled user.positionTitles with
        ⟨result, positioned⟩
      cases result with
      | error e => simp [hpositions]
      | ok _ => simp [hpositions, eq_comm]

/-! ## The keys outside the indices -/

/-- A key that belongs neither to an index nor to the name of a user. -/
structure Outside (other : Text) : Prop where
  skill : ∀ rest, other ≠ key .userSkill rest
  position : ∀ rest, other ≠ key .userJobPosition rest
  name : ∀ user, other ≠ userNameKey user

/-- A key of another family lies outside. -/
theorem outside_key {family : Prefix}
    (h : family ≠ .userSkill ∧ family ≠ .userJobPosition ∧ family ≠ .userName) (rest : Text) :
    Outside (key family rest) := by
  obtain ⟨hskill, hposition, hname⟩ := h
  refine ⟨?_, ?_, ?_⟩ <;> intro other <;> simp [userNameKey, hskill, hposition, hname]

/-- The counter is outside the indexes. -/
theorem outside_lastID : Outside lastID :=
  ⟨by simp, by simp, by simp [userNameKey]⟩

/-- A name is written under its own key alone. -/
theorem existsKey_updateName {other : Text} (hother : Outside other) :
    (updateName db newUser oldUser).existsKey other = db.existsKey other := by
  have hname : ∀ user, ¬ userNameKey user = other := fun user => (hother.name _).symm
  unfold updateName
  split
  · rw [saveUserNameKey, DB.existsKey_putKey, if_neg (hname _), deleteUserNameKey,
      DB.existsKey_deleteKey, if_neg (hname _)]
  · rfl

/-- An update of the name leaves the entries of skills. -/
theorem existsKey_skill_updateName (db : DB) (newUser oldUser : Person) (name : Text) :
    (updateName db newUser oldUser).existsKey (key .userSkill name)
      = db.existsKey (key .userSkill name) := by
  have hname : ∀ user, ¬ userNameKey user = key .userSkill name := by
    intro user
    simp [userNameKey]
  unfold updateName
  split
  · rw [saveUserNameKey, DB.existsKey_putKey, if_neg (hname _), deleteUserNameKey,
      DB.existsKey_deleteKey, if_neg (hname _)]
  · rfl

/-- What saving an updated user writes. -/
theorem existsKey_saveUpdated (hmail : newUser.email = oldUser.email) (other : Text) :
    (saveUpdated db newUser oldUser).existsKey other
      = if key .userMail newUser.email = other then
          some (.json (mergeUser newUser oldUser).serializeMe)
        else if key .userPassword newUser.email = other ∧ newUser.password ≠ [] ∧
            oldUser.password ≠ newUser.password then some (.text newUser.password)
        else db.existsKey other := by
  have hrecord : (mergeUser newUser oldUser).email = newUser.email := rfl
  rw [saveUpdated, saveUser, DB.existsKey_putKey, hrecord]
  by_cases hnone : newUser.password = []
  · simp [hnone]
  · by_cases hsame : oldUser.password = newUser.password
    · simp [hnone, hsame, updatePassword]
    · by_cases hkey : key .userPassword newUser.email = other
      · simp [hnone, hsame, hkey, updatePassword, saveUserPasswordKey]
      · simp [hnone, hsame, hkey, updatePassword, saveUserPasswordKey, deleteUserPasswordKey,
          ← hmail]

/-- An update of skills writes their entries alone. -/
theorem existsKey_updateSkills (db : DB) (newUser oldUser : Person) {other : Text}
    (hother : Outside other) :
    (updateSkills db newUser oldUser).2.existsKey other = db.existsKey other := by
  rw [updateSkills_eq, existsKey_deleteUserFromSkills hother.skill,
    existsKey_addMails hother.skill]

/-- An update of jobs writes the two indexes alone. -/
theorem existsKey_updateWorkHistory (db : DB) (newUser oldUser : Person) {other : Text}
    (hother : Outside other) :
    (updateWorkHistory db newUser oldUser).2.existsKey other = db.existsKey other := by
  rw [updateWorkHistory_eq, existsKey_deleteUserFromJobPositions hother.skill hother.position,
    existsKey_addMails hother.position]

/-- Outside the indices an update that returns leaves what its last writes leave. -/
theorem existsKey_applyUpdate_ok {id : Long} (hmail : newUser.email = oldUser.email)
    (h : applyUpdate db newUser oldUser = (.ok id, next)) {other : Text}
    (hother : Outside other) :
    next.existsKey other = (saveUpdated db newUser oldUser).existsKey other := by
  obtain ⟨-, skilled, positioned, hskills, hpositions, rfl⟩ := applyUpdate_eq_ok.mp h
  have hskilled : skilled.existsKey other = db.existsKey other := by
    have hsame := existsKey_updateSkills (updateName db newUser oldUser) newUser oldUser hother
    rw [hskills, existsKey_updateName hother] at hsame
    exact hsame
  have hpositioned : positioned.existsKey other = db.existsKey other := by
    have hsame := existsKey_updateWorkHistory skilled newUser oldUser hother
    rw [hpositions, hskilled] at hsame
    exact hsame
  rw [existsKey_saveUpdated hmail, existsKey_saveUpdated hmail, hpositioned]

/-- Outside the indices an update that throws leaves the store as it was. -/
theorem existsKey_applyUpdate_error {e : Exn}
    (h : applyUpdate db newUser oldUser = (.error e, next)) {other : Text}
    (hother : Outside other) :
    next.existsKey other = db.existsKey other := by
  have hskilled := existsKey_updateSkills (updateName db newUser oldUser) newUser oldUser hother
  rw [existsKey_updateName hother] at hskilled
  unfold applyUpdate at h
  rcases hskills : updateSkills (updateName db newUser oldUser) newUser oldUser with
    ⟨result, skilled⟩
  rw [hskills] at h hskilled
  cases result with
  | error e =>
      cases h
      exact hskilled
  | ok _ =>
      have hpositioned := existsKey_updateWorkHistory skilled newUser oldUser hother
      rcases hpositions : updateWorkHistory skilled newUser oldUser with ⟨result, positioned⟩
      simp only [hpositions] at h hpositioned
      cases result with
      | error e =>
          cases h
          exact hpositioned.trans hskilled
      | ok _ => cases h

/-- What deleting an account takes away. -/
theorem existsKey_deleteAccount {other : Text} (hother : Outside other) :
    (deleteAccount db user).existsKey other
      = if key .userPassword user.email = other ∨ key .userUuid (toString user.id)
        = other then none
        else db.existsKey other := by
  have hname : ¬ userNameKey user = other := (hother.name _).symm
  rw [deleteAccount, deleteUserPasswordKey, DB.existsKey_deleteKey, deleteUserNameKey,
    DB.existsKey_deleteKey, if_neg hname, deleteUserIdKey, DB.existsKey_deleteKey]
  by_cases hpassword : key .userPassword user.email = other
  · simp [hpassword]
  · simp [hpassword]

/-- Outside the indices a deletion that returns deletes the three keys of the user. -/
theorem existsKey_applyDelete_ok {id : Long} (h : applyDelete db id user = (.ok (), next))
    {other : Text} (hother : Outside other) :
    next.existsKey other
      = if key .userMail user.email = other then none
        else (deleteAccount db user).existsKey other := by
  obtain ⟨skilled, positioned, hskills, hpositions, rfl⟩ := applyDelete_eq_ok.mp h
  have hskilled := @existsKey_deleteUserFromSkills (deleteAccount db user) user.email
    user.skillNames other hother.skill
  have hpositioned := @existsKey_deleteUserFromJobPositions skilled user.email
    user.positionTitles other hother.skill hother.position
  rw [hskills] at hskilled
  rw [hpositions] at hpositioned
  rw [deleteUser, DB.existsKey_deleteKey, hpositioned, hskilled]

/-- Outside the indices a deletion that throws deletes the id and the password. -/
theorem existsKey_applyDelete_error {id : Long} {e : Exn}
    (h : applyDelete db id user = (.error e, next)) {other : Text} (hother : Outside other) :
    next.existsKey other = (deleteAccount db user).existsKey other := by
  have hskilled := @existsKey_deleteUserFromSkills (deleteAccount db user) user.email
    user.skillNames other hother.skill
  unfold applyDelete at h
  rcases hskills : deleteUserFromSkills user.email (deleteAccount db user) user.skillNames with
    ⟨result, skilled⟩
  rw [hskills] at h hskilled
  cases result with
  | error e =>
      cases h
      exact hskilled
  | ok _ =>
      have hpositioned := @existsKey_deleteUserFromJobPositions skilled user.email
        user.positionTitles other hother.skill hother.position
      rcases hpositions : deleteUserFromJobPositions user.email skilled user.positionTitles with
        ⟨result, positioned⟩
      simp only [hpositions] at h hpositioned
      cases result with
      | error e =>
          cases h
          exact hpositioned.trans hskilled
      | ok _ => cases h

/-! ## Positions never disappear -/

/-- Whether a position has an entry depends on its key alone. -/
theorem isSome_getUserJobPositionKey_congr {title : Text}
    (h : next.existsKey (key .userJobPosition title)
      = db.existsKey (key .userJobPosition title)) :
    (getUserJobPositionKey next title).isSome = (getUserJobPositionKey db title).isSome := by
  rw [getUserJobPositionKey, getUserJobPositionKey, indexKey_congr h]

/-- A position that has an entry or gets one has one after the update. -/
theorem isSome_position_updateWorkHistory {title : Text}
    (h : (getUserJobPositionKey db title).isSome ∨ title ∈ addedTitles newUser oldUser) :
    (getUserJobPositionKey (updateWorkHistory db newUser oldUser).2 title).isSome := by
  rw [updateWorkHistory_eq]
  exact isSome_getUserJobPositionKey_deleteUserFromJobPositions (isSome_indexKey_addMails h)

/-- An update of skills leaves the entries of positions. -/
theorem existsKey_position_updateSkills (db : DB) (newUser oldUser : Person) (title : Text) :
    (updateSkills (updateName db newUser oldUser) newUser oldUser).2.existsKey
        (key .userJobPosition title) = db.existsKey (key .userJobPosition title) := by
  have hname : ∀ user, ¬ userNameKey user = key .userJobPosition title := by
    intro user
    simp [userNameKey]
  rw [updateSkills_eq, existsKey_deleteUserFromSkills (by simp), existsKey_addMails (by simp),
    updateName]
  split
  · rw [saveUserNameKey, DB.existsKey_putKey, if_neg (hname _), deleteUserNameKey,
      DB.existsKey_deleteKey, if_neg (hname _)]
  · rfl

/-- Saving an updated user leaves the entries of positions. -/
theorem existsKey_position_saveUpdated (db : DB) (newUser oldUser : Person) (title : Text) :
    (saveUpdated db newUser oldUser).existsKey (key .userJobPosition title)
      = db.existsKey (key .userJobPosition title) := by
  unfold saveUpdated updatePassword
  split
  · simp [saveUser]
  · split <;> simp [saveUser, saveUserPasswordKey, deleteUserPasswordKey]

/-- An update keeps every position, whether it returns or throws. -/
theorem isSome_position_applyUpdate {title : Text} (h : (getUserJobPositionKey db title).isSome) :
    (getUserJobPositionKey (applyUpdate db newUser oldUser).2 title).isSome := by
  have hskilled := existsKey_position_updateSkills db newUser oldUser title
  unfold applyUpdate
  rcases hskills : updateSkills (updateName db newUser oldUser) newUser oldUser with
    ⟨result, skilled⟩
  rw [hskills] at hskilled
  have hkept : (getUserJobPositionKey skilled title).isSome := by
    rwa [isSome_getUserJobPositionKey_congr hskilled]
  cases result with
  | error e => exact hkept
  | ok _ =>
      have hpositioned : (getUserJobPositionKey (updateWorkHistory skilled newUser oldUser).2
          title).isSome := isSome_position_updateWorkHistory (.inl hkept)
      rcases hpositions : updateWorkHistory skilled newUser oldUser with ⟨result, positioned⟩
      rw [hpositions] at hpositioned
      simp only [hpositions]
      cases result with
      | error e => exact hpositioned
      | ok _ =>
          show (getUserJobPositionKey (saveUpdated positioned newUser oldUser) title).isSome
          rwa [isSome_getUserJobPositionKey_congr (existsKey_position_saveUpdated _ _ _ _)]

/-- The titles that an update that returns added are there. -/
theorem isSome_position_added {id : Long} {title : Text}
    (h : applyUpdate db newUser oldUser = (.ok id, next))
    (htitle : title ∈ addedTitles newUser oldUser) :
    (getUserJobPositionKey next title).isSome := by
  obtain ⟨-, skilled, positioned, -, hpositions, rfl⟩ := applyUpdate_eq_ok.mp h
  have hpositioned : (getUserJobPositionKey (updateWorkHistory skilled newUser oldUser).2
      title).isSome := isSome_position_updateWorkHistory (.inr htitle)
  rw [hpositions] at hpositioned
  rwa [isSome_getUserJobPositionKey_congr (existsKey_position_saveUpdated _ _ _ _)]

/-- A deletion keeps every position, whether it returns or throws. -/
theorem isSome_position_applyDelete {id : Long} {title : Text}
    (h : (getUserJobPositionKey db title).isSome) :
    (getUserJobPositionKey (applyDelete db id user).2 title).isSome := by
  have hskilled : (deleteUserFromSkills user.email (deleteAccount db user)
      user.skillNames).2.existsKey (key .userJobPosition title)
      = db.existsKey (key .userJobPosition title) := by
    rw [existsKey_deleteUserFromSkills (by simp)]
    simp [deleteAccount, deleteUserPasswordKey, deleteUserNameKey, deleteUserIdKey, userNameKey]
  unfold applyDelete
  rcases hskills : deleteUserFromSkills user.email (deleteAccount db user) user.skillNames with
    ⟨result, skilled⟩
  rw [hskills] at hskilled
  have hkept : (getUserJobPositionKey skilled title).isSome := by
    rwa [isSome_getUserJobPositionKey_congr hskilled]
  cases result with
  | error e => exact hkept
  | ok _ =>
      have hpositioned : (getUserJobPositionKey (deleteUserFromJobPositions user.email skilled
          user.positionTitles).2 title).isSome :=
        isSome_getUserJobPositionKey_deleteUserFromJobPositions hkept
      rcases hpositions : deleteUserFromJobPositions user.email skilled user.positionTitles with
        ⟨result, positioned⟩
      rw [hpositions] at hpositioned
      simp only [hpositions]
      cases result with
      | error e => exact hpositioned
      | ok _ =>
          have hrecord : (deleteUser positioned user).existsKey (key .userJobPosition title)
              = positioned.existsKey (key .userJobPosition title) := by
            simp [deleteUser]
          show (getUserJobPositionKey (deleteUser positioned user) title).isSome
          rwa [isSome_getUserJobPositionKey_congr hrecord]

/-! ## The keys that no account operation writes -/

/-- A key that belongs to no record, id, password, name or index, and is not the counter. -/
structure Apart (other : Text) : Prop extends Outside other where
  mail : ∀ rest, other ≠ key .userMail rest
  uuid : ∀ rest, other ≠ key .userUuid rest
  password : ∀ rest, other ≠ key .userPassword rest
  counter : other ≠ lastID

/-- The families that `SessionManager`, `RelationsManager`, `RecommendationsManager` and the
notifications keep for themselves. -/
theorem apart_key {family : Prefix}
    (h : family = .userToken ∨ family = .contact ∨ family = .recommendation ∨
      family = .notificationsToken) (rest : Text) : Apart (key family rest) := by
  have houtside : Outside (key family rest) := by
    apply outside_key
    rcases h with rfl | rfl | rfl | rfl <;> decide
  refine ⟨houtside, ?_, ?_, ?_, by simp⟩ <;> intro other <;>
    rcases h with rfl | rfl | rfl | rfl <;> simp

/-- A registration leaves what is apart from accounts. -/
theorem existsKey_savePerson {other : Text} (hother : Apart other) (juser : Json)
    (forceID : Long) :
    (savePerson db juser forceID).2.existsKey other = db.existsKey other := by
  rcases savePerson_cases db juser forceID with ⟨e, hsave⟩ | ⟨user, id, counted, -, -, hid, hsave⟩
  · rw [hsave]
  · rw [hsave, existsKey_insertPerson hother.skill hother.position, existsKey_saveAccount,
      if_neg (hother.password _).symm, if_neg (hother.uuid _).symm, if_neg (hother.name _).symm,
      if_neg (hother.mail _).symm, hid.existsKey hother.counter]

/-- So does an update. -/
theorem existsKey_updateUser {other : Text} (hother : Apart other) (juser : Json) :
    (updateUser db juser).2.existsKey other = db.existsKey other := by
  rcases updateUser_cases db juser with ⟨e, hupdate, -⟩ | ⟨newUser, oldUser, -, -, hupdate⟩
  · rw [hupdate]
  · rw [hupdate]
    rcases happly : applyUpdate db { newUser with email := oldUser.email } oldUser with
      ⟨result, next⟩
    cases result with
    | error e => exact existsKey_applyUpdate_error happly hother.toOutside
    | ok id =>
        have hmail : ({ newUser with email := oldUser.email } : Person).email
          = oldUser.email := rfl
        have hsaved := existsKey_applyUpdate_ok hmail happly hother.toOutside
        rw [existsKey_saveUpdated hmail, if_neg (hother.mail _).symm,
          if_neg fun h => hother.password _ h.1.symm] at hsaved
        exact hsaved

/-- So does a deletion. -/
theorem existsKey_deletePerson {other : Text} (hother : Apart other) (id : Long) :
    (deletePerson db id).2.existsKey other = db.existsKey other := by
  have haccount : ∀ user, (deleteAccount db user).existsKey other = db.existsKey other := by
    intro user
    rw [existsKey_deleteAccount hother.toOutside,
      if_neg (not_or.mpr ⟨(hother.password _).symm, (hother.uuid _).symm⟩)]
  rcases deletePerson_cases db id with ⟨e, -, hdelete⟩ | ⟨user, -, hdelete⟩
  · rw [hdelete]
  · rw [hdelete]
    rcases happly : applyDelete db id user with ⟨result, next⟩
    cases result with
    | error e => exact (existsKey_applyDelete_error happly hother.toOutside).trans (haccount user)
    | ok _ =>
        have hdeleted := existsKey_applyDelete_ok happly hother.toOutside
        rw [if_neg (hother.mail _).symm, haccount] at hdeleted
        exact hdeleted

/-- No call writes a key of another kind. The contacts are those of a relation. -/
theorem existsKey_exec_elsewhere {other : Text} (call : Call) (hapart : Apart other)
    (hcontact : ∀ relation, call = .saveOrUpdateRelation relation →
      ∀ rest, other ≠ key .contact rest)
    (hrecommendation : ∀ rest, other ≠ key .recommendation rest)
    (hnotification : ∀ rest, other ≠ key .notificationsToken rest)
    (hconversations : ∀ user contact, MessagesManager.getKey user contact ≠ other) :
    (exec db call).2.existsKey other = db.existsKey other := by
  cases call with
  | savePerson juser forceID => exact existsKey_savePerson hapart juser forceID
  | updateUser juser => exact existsKey_updateUser hapart juser
  | deletePerson id => exact existsKey_deletePerson hapart id
  | saveOrUpdateRelation relation =>
      exact existsKey_saveOrUpdateRelation (hcontact relation rfl) relation
  | saveRecommendation recommendation =>
      exact existsKey_saveRecommendation hrecommendation hapart.mail recommendation
  | removeRecommendation fromUserId toUserId =>
      exact existsKey_removeRecommendation hrecommendation hapart.mail fromUserId toUserId
  | saveMessage now request => exact existsKey_saveMessage hconversations now request
  | setMessagesAsReceived fromUserId toUserId deliveredMessages =>
      exact MessagesManager.existsKey_setMessagesAsReceived (hconversations _ _) deliveredMessages
  | setOrUpdateNotificationToken request userId =>
      exact existsKey_setOrUpdateNotificationToken hnotification request userId

end TallerII.PersonManager
