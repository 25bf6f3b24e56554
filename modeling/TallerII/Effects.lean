import TallerII.Accounts

/-!
# What a call does to the keys of users

`Effect` has one case for each thing that a call can do to the records, the ids and the passwords
of users, with its outcome: nothing, registering a user, updating one, recommending one, and
deleting one as a whole or half-way. `effect_exec` says that there is nothing else, so invariants
of runs are case analyses over `Effect` that do not look at the calls again.
-/

namespace TallerII.PersonManager

open Manager

variable {db next : DB}

/-- A family of keys that holds a part of a user. -/
def Prefix.OfUser (family : Prefix) : Prop :=
  family = .userMail ∨ family = .userUuid ∨ family = .userPassword

/-- An operation on one account. -/
def Call.OnAccount : Call → Prop
  | .savePerson _ _ => True
  | .updateUser _ => True
  | .deletePerson _ => True
  | _ => False

/-- The profile that `updateUser` saves over an old one. -/
def updated (newUser oldUser : Person) : Person :=
  mergeUser { newUser with email := oldUser.email } oldUser

/-- What a call did to the keys of users. -/
inductive Effect (db : DB) : Call → Outcome → DB → Prop where
  | kept {call : Call} {result : Outcome} {next : DB}
      (hcall : call.OnAccount → ∃ e, result = .error e)
      (hsame : ∀ family rest, Prefix.OfUser family →
        next.existsKey (key family rest) = db.existsKey (key family rest))
      (hcounter : next.existsKey lastID = db.existsKey lastID) :
      Effect db call result next
  | registered {juser : Json} {forceID id : Long} {user : Person} {counted next : DB}
      (hread : Person.ofJson juser = .ok user)
      (hfree : db.existsKey (key .userMail user.email) = none)
      (hassigned : Assigned db forceID id counted)
      (hrecord : ∀ mail, next.existsKey (key .userMail mail)
        = if user.email = mail then some (.json (registered user id).serializeMe)
          else db.existsKey (key .userMail mail))
      (hid : ∀ rest, next.existsKey (key .userUuid rest)
        = if toString id = rest then some (.text user.email)
          else db.existsKey (key .userUuid rest))
      (hpassword : ∀ mail, next.existsKey (key .userPassword mail)
        = if user.email = mail then some (.text user.password)
          else db.existsKey (key .userPassword mail))
      (hcounter : next.existsKey lastID = counted.existsKey lastID) :
      Effect db (.savePerson juser forceID) (.ok (some id)) next
  | updated {juser : Json} {newUser oldUser : Person} {next : DB}
      (hread : Person.ofJson juser = .ok newUser)
      (hold : getUserById db newUser.id = .ok oldUser)
      (hrecord : ∀ mail, next.existsKey (key .userMail mail)
        = if oldUser.email = mail then some (.json (updated newUser oldUser).serializeMe)
          else db.existsKey (key .userMail mail))
      (hid : ∀ rest, next.existsKey (key .userUuid rest) = db.existsKey (key .userUuid rest))
      (hpassword : ∀ mail, next.existsKey (key .userPassword mail)
        = if oldUser.email = mail ∧ newUser.password ≠ [] ∧
          oldUser.password ≠ newUser.password then
            some (.text newUser.password)
          else db.existsKey (key .userPassword mail))
      (hcounter : next.existsKey lastID = db.existsKey lastID) :
      Effect db (.updateUser juser) (.ok (some newUser.id)) next
  | recommended {call : Call} {result : Outcome} {user : Person} {total : Int32} {next : DB}
      (hcall : ¬ call.OnAccount) (hread : getUserByMail db user.email = .ok user)
      (hrecord : ∀ mail, next.existsKey (key .userMail mail)
        = if user.email = mail then
            some (.json ({ user with totRecommendations := total } : Person).serializeMe)
          else db.existsKey (key .userMail mail))
      (hsame : ∀ family rest, family = .userUuid ∨ family = .userPassword →
        next.existsKey (key family rest) = db.existsKey (key family rest))
      (hcounter : next.existsKey lastID = db.existsKey lastID) :
      Effect db call result next
  | deleted {id : Long} {user : Person} {next : DB} (hread : getUserById db id = .ok user)
      (hrecord : ∀ mail, next.existsKey (key .userMail mail)
        = if user.email = mail then none else db.existsKey (key .userMail mail))
      (hid : ∀ rest, next.existsKey (key .userUuid rest)
        = if toString user.id = rest then none else db.existsKey (key .userUuid rest))
      (hpassword : ∀ mail, next.existsKey (key .userPassword mail)
        = if user.email = mail then none else db.existsKey (key .userPassword mail))
      (hcounter : next.existsKey lastID = db.existsKey lastID) :
      Effect db (.deletePerson id) (.ok none) next
  | halfDeleted {id : Long} {user : Person} {e : Exn} {next : DB}
      (hread : getUserById db id = .ok user)
      (hrecord : ∀ mail, next.existsKey (key .userMail mail) = db.existsKey (key .userMail mail))
      (hid : ∀ rest, next.existsKey (key .userUuid rest)
        = if toString user.id = rest then none else db.existsKey (key .userUuid rest))
      (hpassword : ∀ mail, next.existsKey (key .userPassword mail)
        = if user.email = mail then none else db.existsKey (key .userPassword mail))
      (hcounter : next.existsKey lastID = db.existsKey lastID) :
      Effect db (.deletePerson id) (.error e) next

/-! ## The account operations -/

/-- The keys of a user are no keys of an index. -/
theorem outside_ofUser {family : Prefix} (h : Prefix.OfUser family) (rest : Text) :
    Outside (key family rest) := by
  apply outside_key
  rcases h with rfl | rfl | rfl <;> decide

/-- What a registration does to the accounts. -/
theorem effect_savePerson (db : DB) (juser : Json) (forceID : Long) :
    Effect db (.savePerson juser forceID) (exec db (.savePerson juser forceID)).1
      (exec db (.savePerson juser forceID)).2 := by
  rcases savePerson_cases db juser forceID with
    ⟨e, hsave⟩ | ⟨user, id, counted, hread, hfree, hassigned, hsave⟩
  · rw [exec, hsave]
    exact .kept (fun _ => ⟨e, rfl⟩) (fun _ _ _ => rfl) rfl
  · rw [exec, hsave]
    have hkeys : ∀ family rest, counted.existsKey (key family rest)
        = db.existsKey (key family rest) := fun family rest => hassigned.existsKey key_ne_lastID
    have hafter : ∀ other, (∀ rest, other ≠ key .userSkill rest) →
        (∀ rest, other ≠ key .userJobPosition rest) →
        (insertPerson counted (registered user id)).existsKey other
          = (saveAccount counted (registered user id)).existsKey other :=
      fun other hskill hposition => existsKey_insertPerson hskill hposition
    refine .registered hread hfree hassigned ?_ ?_ ?_ ?_
    · intro mail
      show (insertPerson counted (registered user id)).existsKey _ = _
      rw [hafter _ (by simp) (by simp), existsKey_saveAccount]
      simp [userNameKey, hkeys, registered]
    · intro rest
      show (insertPerson counted (registered user id)).existsKey _ = _
      rw [hafter _ (by simp) (by simp), existsKey_saveAccount]
      simp [userNameKey, hkeys, registered]
    · intro mail
      show (insertPerson counted (registered user id)).existsKey _ = _
      rw [hafter _ (by simp) (by simp), existsKey_saveAccount]
      simp [userNameKey, hkeys, registered]
    · show (insertPerson counted (registered user id)).existsKey _ = _
      rw [hafter _ (by simp) (by simp), existsKey_saveAccount]
      simp [userNameKey]

/-- What an update does to the accounts. -/
theorem effect_updateUser (db : DB) (juser : Json) :
    Effect db (.updateUser juser) (exec db (.updateUser juser)).1
      (exec db (.updateUser juser)).2 := by
  rcases updateUser_cases db juser with ⟨e, hupdate, -⟩ | ⟨newUser, oldUser, hread, hold, hupdate⟩
  · rw [exec, hupdate]
    exact .kept (fun _ => ⟨e, rfl⟩) (fun _ _ _ => rfl) rfl
  · rw [exec, hupdate]
    rcases happly : applyUpdate db { newUser with email := oldUser.email } oldUser with
      ⟨result, next⟩
    cases result with
    | error e =>
        -- the loops that may throw come before the password and the record
        refine .kept (fun _ => ⟨e, rfl⟩) ?_ (existsKey_applyUpdate_error happly outside_lastID)
        intro family rest hfamily
        exact existsKey_applyUpdate_error happly (outside_ofUser hfamily rest)
    | ok id =>
        have hmail : ({ newUser with email := oldUser.email } : Person).email
          = oldUser.email := rfl
        have hafter : ∀ other, Outside other → next.existsKey other = _ := fun other hother =>
          (existsKey_applyUpdate_ok hmail happly hother).trans (existsKey_saveUpdated hmail other)
        have hid : id = newUser.id := (applyUpdate_eq_ok.mp happly).1
        subst hid
        refine .updated hread hold ?_ ?_ ?_ ?_
        · intro mail
          show next.existsKey _ = _
          rw [hafter _ (outside_key (by decide) _)]
          simp [PersonManager.updated]
        · intro rest
          show next.existsKey _ = _
          rw [hafter _ (outside_key (by decide) _)]
          simp
        · intro mail
          show next.existsKey _ = _
          rw [hafter _ (outside_key (by decide) _)]
          simp
        · show next.existsKey _ = _
          rw [hafter _ outside_lastID]
          simp

/-- A deletion whose loops throw has deleted the account but not the record. -/
theorem effect_applyDelete_error {id : Long} {user : Person}
    (hread : getUserById db id = .ok user) {e : Exn}
    (happly : applyDelete db id user = (.error e, next)) :
    Effect db (.deletePerson id) (.error e) next := by
  have hafter : ∀ other, Outside other → next.existsKey other = _ := fun other hother =>
    (existsKey_applyDelete_error happly hother).trans (existsKey_deleteAccount hother)
  refine .halfDeleted hread ?_ ?_ ?_ ?_
  · intro mail
    rw [hafter _ (outside_key (by decide) _)]
    simp
  · intro rest
    rw [hafter _ (outside_key (by decide) _)]
    simp
  · intro mail
    rw [hafter _ (outside_key (by decide) _)]
    simp
  · rw [hafter _ outside_lastID]
    simp

/-- A deletion that returns has deleted the account and the record. -/
theorem effect_applyDelete_ok {id : Long} {user : Person}
    (hread : getUserById db id = .ok user)
    (happly : applyDelete db id user = (.ok (), next)) :
    Effect db (.deletePerson id) (.ok none) next := by
  have hafter : ∀ other, Outside other → next.existsKey other
      = if key .userMail user.email = other then none
        else (deleteAccount db user).existsKey other := fun other hother =>
    existsKey_applyDelete_ok happly hother
  refine .deleted hread ?_ ?_ ?_ ?_
  · intro mail
    rw [hafter _ (outside_key (by decide) _),
      existsKey_deleteAccount (outside_key (by decide) _)]
    simp
  · intro rest
    rw [hafter _ (outside_key (by decide) _),
      existsKey_deleteAccount (outside_key (by decide) _)]
    simp
  · intro mail
    rw [hafter _ (outside_key (by decide) _),
      existsKey_deleteAccount (outside_key (by decide) _)]
    simp
  · rw [hafter _ outside_lastID, existsKey_deleteAccount outside_lastID]
    simp

/-- What a deletion does to the accounts. -/
theorem effect_deletePerson (db : DB) (id : Long) :
    Effect db (.deletePerson id) (exec db (.deletePerson id)).1
      (exec db (.deletePerson id)).2 := by
  rcases deletePerson_cases db id with ⟨e, -, hdelete⟩ | ⟨user, hread, hdelete⟩
  · rw [exec, hdelete]
    exact .kept (fun _ => ⟨e, rfl⟩) (fun _ _ _ => rfl) rfl
  · rw [exec, hdelete]
    rcases happly : applyDelete db id user with ⟨_ | _, next⟩
    · exact effect_applyDelete_error hread happly
    · exact effect_applyDelete_ok hread happly

/-! ## The other calls -/

/-- A recommendation changes nothing of users but a total. -/
theorem effect_recommended (h : Consistent db) {call : Call} {result : Outcome} {userId : Long}
    (hcall : ¬ call.OnAccount) (hnext : Recommended db userId next) :
    Effect db call result next := by
  cases hnext with
  | same => exact .kept (fun hon => absurd hon hcall) (fun _ _ _ => rfl) rfl
  | listed recommendations =>
      refine .kept (fun hon => absurd hon hcall) ?_ (by simp)
      intro family rest hfamily
      refine RecommendationsManager.existsKey_key_saveRecommendations ?_ rest userId _
      rcases hfamily with rfl | rfl | rfl <;> decide
  | counted recommendations user total hread =>
      obtain ⟨-, hrecord, -⟩ := h.getUserById_eq_ok.mp hread
      refine @Effect.recommended db call result user total _ hcall hrecord ?_ ?_ ?_
      · intro mail
        simp
      · intro family rest hfamily
        have hne : .userMail ≠ family ∧ family ≠ .recommendation := by
          rcases hfamily with rfl | rfl <;> decide
        simp [hne]
      · simp

/-- A call that writes no key of a user changes nothing of users. -/
theorem effect_kept {call : Call} {result : Outcome} (hcall : ¬ call.OnAccount)
    (hsame : ∀ other, (∃ family rest, Prefix.OfUser family ∧ other = key family rest) ∨
      other = lastID → next.existsKey other = db.existsKey other) :
        Effect db call result next := by
  refine .kept (fun hon => absurd hon hcall) ?_ (hsame _ (.inr rfl))
  intro family rest hfamily
  exact hsame _ (.inl ⟨family, rest, hfamily, rfl⟩)

/-- What any call does to the keys of users. -/
theorem effect_exec (h : Consistent db) (call : Call) :
    Effect db call (exec db call).1 (exec db call).2 := by
  cases call with
  | savePerson juser forceID => exact effect_savePerson db juser forceID
  | updateUser juser => exact effect_updateUser db juser
  | deletePerson id => exact effect_deletePerson db id
  | saveOrUpdateRelation relation =>
      refine effect_kept (by simp [Call.OnAccount]) ?_
      rintro other (⟨family, rest, hfamily, rfl⟩ | rfl)
      · refine existsKey_saveOrUpdateRelation ?_ relation
        rcases hfamily with rfl | rfl | rfl <;> simp
      · exact existsKey_saveOrUpdateRelation (by simp) relation
  | saveRecommendation recommendation =>
      obtain ⟨userId, hnext⟩ := recommended_saveRecommendation h recommendation
      exact effect_recommended h (by simp [Call.OnAccount]) hnext
  | removeRecommendation fromUserId toUserId =>
      obtain ⟨userId, hnext⟩ := recommended_removeRecommendation_call h fromUserId toUserId
      exact effect_recommended h (by simp [Call.OnAccount]) hnext
  | saveMessage now request =>
      refine effect_kept (by simp [Call.OnAccount]) ?_
      rintro other (⟨family, rest, -, rfl⟩ | rfl)
      · exact existsKey_saveMessage (by simp) now request
      · exact existsKey_saveMessage (by simp) now request
  | setMessagesAsReceived fromUserId toUserId deliveredMessages =>
      refine effect_kept (by simp [Call.OnAccount]) ?_
      rintro other (⟨family, rest, -, rfl⟩ | rfl)
      · exact MessagesManager.existsKey_setMessagesAsReceived (by simp) deliveredMessages
      · exact MessagesManager.existsKey_setMessagesAsReceived (by simp) deliveredMessages
  | setOrUpdateNotificationToken request userId =>
      refine effect_kept (by simp [Call.OnAccount]) ?_
      rintro other (⟨family, rest, hfamily, rfl⟩ | rfl)
      · refine existsKey_setOrUpdateNotificationToken ?_ request userId
        rcases hfamily with rfl | rfl | rfl <;> simp
      · exact existsKey_setOrUpdateNotificationToken (by simp) request userId

/-- An operation on an account leaves the families alone that are about several users. -/
theorem existsKey_exec_of_onAccount {call : Call} (h : call.OnAccount) {other : Text}
    (hother : Apart other) : (exec db call).2.existsKey other = db.existsKey other := by
  cases call with
  | savePerson juser forceID => exact existsKey_savePerson hother juser forceID
  | updateUser juser => exact existsKey_updateUser hother juser
  | deletePerson id => exact existsKey_deletePerson hother id
  | _ => exact absurd h id

/-! ## What is read afterwards -/

/-- An updated user has its texts in the form in which they are stored. -/
theorem Consistent.normalized_updated {newUser oldUser : Person} {juser : Json}
    (h : Consistent db)
    (hread : Person.ofJson juser = .ok newUser)
    (hold : getUserByMail db oldUser.email = .ok oldUser) :
      (updated newUser oldUser).Normalized :=
  normalized_merged (h.normalized_update hread hold) oldUser

/-- Which users exist after an account call that returned. -/
theorem Effect.userExists_of_onAccount (h : Consistent db) {call : Call} {result : Option Long}
    (heffect : Effect db call (.ok result) next) (hcall : call.OnAccount) :
    (∃ juser forceID id, call = .savePerson juser forceID ∧ result = some id ∧
        ∀ other, userExists next other ↔ other = id ∨ userExists db other) ∨
      (∃ id, call = .deletePerson id ∧
        ∀ other, userExists next other ↔ other ≠ id ∧ userExists db other) ∨
      ((∀ id, call ≠ .deletePerson id) ∧ ∀ other, userExists next other ↔
        userExists db other) := by
  cases heffect with
  | kept hthrown =>
      obtain ⟨e, he⟩ := hthrown hcall
      cases he
  | recommended hother => exact absurd hcall hother
  | @registered juser forceID id profile counted _ hprofile hfree hassigned hrecord hid =>
      refine .inl ⟨juser, forceID, id, rfl, rfl, fun other => ?_⟩
      rw [userExists, userExists, hid]
      by_cases hsame : other = id
      · simp [hsame]
      · simp [hsame, Ne.symm hsame]
  | @updated juser newUser oldUser _ hprofile hold hrecord hid =>
      refine .inr (.inr ⟨by simp, fun other => ?_⟩)
      rw [userExists, userExists, hid]
  | @deleted id profile _ hprofile hrecord hid =>
      obtain ⟨-, -, hsame⟩ := h.getUserById_eq_ok.mp hprofile
      refine .inr (.inl ⟨id, rfl, fun other => ?_⟩)
      rw [userExists, userExists, hid, hsame]
      by_cases hother : other = id
      · simp [hother]
      · simp [hother, Ne.symm hother]

/-- Other calls neither add nor remove a user. -/
theorem Effect.userExists_of_not_onAccount {call : Call} {result : Outcome}
    (heffect : Effect db call result next) (hcall : ¬ call.OnAccount) (other : Long) :
    userExists next other = userExists db other := by
  unfold userExists
  cases heffect with
  | kept _ hsame => rw [hsame _ _ (.inr (.inl rfl))]
  | recommended _ _ _ hsame => rw [hsame _ _ (.inl rfl)]
  | registered => exact absurd trivial hcall
  | updated => exact absurd trivial hcall
  | deleted => exact absurd trivial hcall
  | halfDeleted => exact absurd trivial hcall

/-- A record that is read after an account call that returned is an old one, with its id and its
total, or the one of a user who registered. -/
theorem Effect.read_of_onAccount (h : Consistent db) {call : Call} {result : Option Long}
    (heffect : Effect db call (.ok result) next) (hcall : call.OnAccount) {mail : Text}
    {user : Person} (hread : getUserByMail next mail = .ok user) :
    (∃ old, getUserByMail db mail = .ok old ∧ old.id = user.id ∧
      old.totRecommendations = user.totRecommendations) ∨
      result = some user.id ∧ user.totRecommendations = 0 ∧
        ∃ juser forceID, call = .savePerson juser forceID := by
  cases heffect with
  | kept hthrown =>
      obtain ⟨e, he⟩ := hthrown hcall
      cases he
  | recommended hother => exact absurd hcall hother
  | @registered juser forceID id profile counted _ hprofile hfree hassigned hrecord =>
      have hafter := getUserByMail_of_saved
        (normalized_registered (Person.normalized_of_ofJson hprofile) id) hrecord mail
      rw [hafter] at hread
      split at hread
      · cases hread
        exact .inr ⟨rfl, rfl, juser, forceID, rfl⟩
      · exact .inl ⟨user, hread, rfl, rfl⟩
  | @updated juser newUser oldUser _ hprofile hold hrecord =>
      obtain ⟨-, holdRecord, hid⟩ := h.getUserById_eq_ok.mp hold
      have hafter :=
        getUserByMail_of_saved (h.normalized_updated hprofile holdRecord) hrecord mail
      rw [hafter] at hread
      split at hread
      · rename_i hmail
        cases hread
        have hmail : oldUser.email = mail := hmail
        exact .inl ⟨oldUser, hmail ▸ holdRecord, hid, rfl⟩
      · exact .inl ⟨user, hread, rfl, rfl⟩
  | @deleted id profile _ hprofile hrecord =>
      rw [getUserByMail_of_deleted hrecord] at hread
      split at hread
      · cases hread
      · exact .inl ⟨user, hread, rfl, rfl⟩

end TallerII.PersonManager
