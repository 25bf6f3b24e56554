import TallerII.Steps

/-!
# Accounts

`Consistent` is what holds of the records in every store that calls can lead to, also calls that
throw half-way: every record is the text of a profile that is read back, an id leads to a record
with that id, and every position of a record is a name of the index of positions.
`Reachable.consistent` proves it from one lemma for each kind of write.
-/

namespace TallerII.PersonManager

open Manager

/-- The records of a store belong together. -/
structure Consistent (db : DB) : Prop where
  record : ∀ mail entry, db.existsKey (key .userMail mail) = some entry →
    ∃ user : Person, entry = .json user.serializeMe ∧ user.email = mail ∧ user.Normalized
  account : ∀ id entry, db.existsKey (key .userUuid (toString id)) = some entry →
    ∃ user : Person, entry = .text user.email ∧ getUserByMail db user.email = .ok user ∧
      user.id = id
  position : ∀ mail user, getUserByMail db mail = .ok user → ∀ title ∈ user.positionTitles,
    (getUserJobPositionKey db (lower title)).isSome
  counter : ∀ entry, db.existsKey lastID = some entry → ∃ id, entry = .text (toString id)

variable {db next : DB} {user : Person}

/-! ## Reading records -/

/-- A stored profile is read back. -/
theorem getUserByMail_of_stored {mail : Text} (huser : user.Normalized)
    (h : db.existsKey (key .userMail mail) = some (.json user.serializeMe)) :
    getUserByMail db mail = .ok user := by
  rw [getUserByMail, h]
  exact Person.ofJson_serializeMe huser

/-- A mail that is free has no user. -/
theorem getUserByMail_of_free {mail : Text} (h : db.existsKey (key .userMail mail) = none)
    (user : Person) : getUserByMail db mail ≠ .ok user := by
  intro hread
  rw [getUserByMail, h] at hread
  cases hread

/-- A user is read from the record of the mail alone. -/
theorem getUserByMail_congr {mail : Text}
    (h : next.existsKey (key .userMail mail) = db.existsKey (key .userMail mail)) :
    getUserByMail next mail = getUserByMail db mail := by
  rw [getUserByMail, getUserByMail, h]

/-- Over a saved profile, that profile is read; elsewhere nothing changes. -/
theorem getUserByMail_of_saved {saved : Person} (hsaved : saved.Normalized)
    (hrecord : ∀ mail, next.existsKey (key .userMail mail)
      = if saved.email = mail then some (.json saved.serializeMe)
        else db.existsKey (key .userMail mail)) (mail : Text) :
    getUserByMail next mail
      = if saved.email = mail then .ok saved else getUserByMail db mail := by
  split
  · rename_i hmail
    refine getUserByMail_of_stored hsaved ?_
    rw [hrecord, if_pos hmail]
  · rename_i hmail
    refine getUserByMail_congr ?_
    rw [hrecord, if_neg hmail]

/-- Under a deleted mail nothing is read; elsewhere nothing changes. -/
theorem getUserByMail_of_deleted {gone : Text}
    (hrecord : ∀ mail, next.existsKey (key .userMail mail)
      = if gone = mail then none else db.existsKey (key .userMail mail)) (mail : Text) :
    getUserByMail next mail
      = if gone = mail then .error (.userNotFoundMail mail) else getUserByMail db mail := by
  split
  · rename_i hmail
    rw [getUserByMail, hrecord, if_pos hmail]
  · rename_i hmail
    refine getUserByMail_congr ?_
    rw [hrecord, if_neg hmail]

/-- A record is there exactly when it is read. -/
theorem Consistent.getUserByMail_eq_ok (h : Consistent db) {mail : Text} :
    getUserByMail db mail = .ok user ↔
      db.existsKey (key .userMail mail) = some (.json user.serializeMe) ∧ user.email = mail ∧
        user.Normalized := by
  constructor
  · intro hread
    cases hentry : db.existsKey (key .userMail mail) with
    | none => simp [getUserByMail, hentry] at hread
    | some entry =>
        obtain ⟨stored, rfl, hmail, hnormalized⟩ := h.record mail entry hentry
        rw [getUserByMail_of_stored hnormalized hentry] at hread
        cases hread
        exact ⟨rfl, hmail, hnormalized⟩
  · rintro ⟨hentry, -, hnormalized⟩
    exact getUserByMail_of_stored hnormalized hentry

/-- In a consistent store every record of a mail can be read. -/
theorem Consistent.getUserByMail_of_existsKey (h : Consistent db) {mail : Text}
    (hexists : (db.existsKey (key .userMail mail)).isSome) :
    ∃ user, getUserByMail db mail = .ok user := by
  obtain ⟨entry, hentry⟩ := Option.isSome_iff_exists.mp hexists
  obtain ⟨user, rfl, -, hnormalized⟩ := h.record mail entry hentry
  exact ⟨user, getUserByMail_of_stored hnormalized hentry⟩

/-- An id leads to the record with that id. -/
theorem Consistent.getUserById_eq_ok (h : Consistent db) {id : Long} :
    getUserById db id = .ok user ↔
      db.existsKey (key .userUuid (toString id)) = some (.text user.email) ∧
        getUserByMail db user.email = .ok user ∧ user.id = id := by
  cases hentry : db.existsKey (key .userUuid (toString id)) with
  | none => simp [getUserById, hentry]
  | some entry =>
      obtain ⟨stored, rfl, hread, hid⟩ := h.account id entry hentry
      have hstored : getUserById db id = .ok stored := by
        rw [getUserById, hentry]
        exact hread
      rw [hstored]
      constructor
      · intro heq
        cases heq
        exact ⟨rfl, hread, hid⟩
      · rintro ⟨hmail, huser, -⟩
        have hsame : stored.email = user.email := by simpa using hmail
        rw [← hsame, hread] at huser
        exact huser

/-- An id that is there leads to a record. -/
theorem Consistent.getUserById_of_userExists (h : Consistent db) {id : Long}
    (hexists : userExists db id) : ∃ user, getUserById db id = .ok user := by
  obtain ⟨entry, hentry⟩ := Option.isSome_iff_exists.mp hexists
  obtain ⟨user, rfl, hread, hid⟩ := h.account id entry hentry
  exact ⟨user, h.getUserById_eq_ok.mpr ⟨hentry, hread, hid⟩⟩

/-! ## Kinds of writes -/

/-- The empty store is consistent. -/
theorem Consistent.empty : Consistent ∅ := by
  refine ⟨?_, ?_, ?_, ?_⟩
  · intro mail entry hentry
    simp at hentry
  · intro id entry hentry
    simp at hentry
  · intro mail user hread
    simp [getUserByMail] at hread
  · intro entry hentry
    simp at hentry

/-- Writes that leave the records alone keep them consistent. -/
theorem Consistent.frame (h : Consistent db)
    (hrecord : ∀ mail, next.existsKey (key .userMail mail) = db.existsKey (key .userMail mail))
    (haccount : ∀ id entry, next.existsKey (key .userUuid (toString id)) = some entry →
      db.existsKey (key .userUuid (toString id)) = some entry)
    (hposition : ∀ title, (getUserJobPositionKey db title).isSome →
      (getUserJobPositionKey next title).isSome)
    (hcounter : next.existsKey lastID = db.existsKey lastID) : Consistent next := by
  have hread : ∀ mail, getUserByMail next mail = getUserByMail db mail := fun mail =>
    getUserByMail_congr (hrecord mail)
  refine ⟨?_, ?_, ?_, ?_⟩
  · intro mail entry hentry
    rw [hrecord] at hentry
    exact h.record mail entry hentry
  · intro id entry hentry
    obtain ⟨user, hmail, huser, hid⟩ := h.account id entry (haccount id entry hentry)
    exact ⟨user, hmail, (hread _).trans huser, hid⟩
  · intro mail user huser title htitle
    rw [hread] at huser
    exact hposition _ (h.position mail user huser title htitle)
  · intro entry hentry
    rw [hcounter] at hentry
    exact h.counter entry hentry

/-- Saving a profile under a free mail, or over the profile with the same id, keeps the records
consistent. -/
theorem Consistent.save (h : Consistent db) (huser : user.Normalized)
    (hold : ∀ old, getUserByMail db user.email = .ok old → old.id = user.id)
    (hrecord : ∀ mail, next.existsKey (key .userMail mail)
      = if user.email = mail then some (.json user.serializeMe)
        else db.existsKey (key .userMail mail))
    (haccount : ∀ id entry, next.existsKey (key .userUuid (toString id)) = some entry →
      id = user.id ∧ entry = .text user.email ∨
        db.existsKey (key .userUuid (toString id)) = some entry)
    (hposition : ∀ title, (getUserJobPositionKey db title).isSome →
      (getUserJobPositionKey next title).isSome)
    (hlisted : ∀ title ∈ user.positionTitles, (getUserJobPositionKey next (lower title)).isSome)
    (hcounter : ∀ entry, next.existsKey lastID = some entry → ∃ id, entry = .text (toString id)) :
    Consistent next := by
  have hsaved : getUserByMail next user.email = .ok user := by
    refine getUserByMail_of_stored huser ?_
    rw [hrecord, if_pos rfl]
  have hother : ∀ mail, user.email ≠ mail → getUserByMail next mail = getUserByMail db mail := by
    intro mail hne
    refine getUserByMail_congr ?_
    rw [hrecord, if_neg hne]
  refine ⟨?_, ?_, ?_, hcounter⟩
  · intro mail entry hentry
    rw [hrecord] at hentry
    split at hentry
    · rename_i hmail
      cases hentry
      exact ⟨user, rfl, hmail, huser⟩
    · exact h.record mail entry hentry
  · intro id entry hentry
    rcases haccount id entry hentry with ⟨rfl, rfl⟩ | hbefore
    · exact ⟨user, rfl, hsaved, rfl⟩
    · obtain ⟨old, rfl, hread, hid⟩ := h.account id entry hbefore
      by_cases hsame : user.email = old.email
      · rw [← hsame] at hread ⊢
        exact ⟨user, rfl, hsaved, (hold old hread).symm.trans hid⟩
      · exact ⟨old, rfl, (hother _ hsame).trans hread, hid⟩
  · intro mail stored hread title htitle
    by_cases hsame : user.email = mail
    · rw [← hsame, hsaved] at hread
      cases hread
      exact hlisted title htitle
    · rw [hother mail hsame] at hread
      exact hposition _ (h.position mail stored hread title htitle)

/-- Deleting a profile together with its id keeps the records consistent. -/
theorem Consistent.delete (h : Consistent db) (hread : getUserByMail db user.email = .ok user)
    (hrecord : ∀ mail, next.existsKey (key .userMail mail)
      = if user.email = mail then none else db.existsKey (key .userMail mail))
    (haccount : ∀ id entry, next.existsKey (key .userUuid (toString id)) = some entry →
      id ≠ user.id ∧ db.existsKey (key .userUuid (toString id)) = some entry)
    (hposition : ∀ title, (getUserJobPositionKey db title).isSome →
      (getUserJobPositionKey next title).isSome)
    (hcounter : next.existsKey lastID = db.existsKey lastID) : Consistent next := by
  have hother : ∀ mail, user.email ≠ mail → getUserByMail next mail = getUserByMail db mail := by
    intro mail hne
    refine getUserByMail_congr ?_
    rw [hrecord, if_neg hne]
  have hgone : ∀ stored, getUserByMail next user.email ≠ .ok stored := by
    intro stored
    rw [getUserByMail, hrecord, if_pos rfl]
    simp
  refine ⟨?_, ?_, ?_, ?_⟩
  · intro mail entry hentry
    rw [hrecord] at hentry
    split at hentry
    · cases hentry
    · exact h.record mail entry hentry
  · intro id entry hentry
    obtain ⟨hne, hbefore⟩ := haccount id entry hentry
    obtain ⟨old, rfl, hold, hid⟩ := h.account id entry hbefore
    -- an id that is listed with the mail of the user leads to the user's record, so it is the
    -- same
    have hmail : user.email ≠ old.email := by
      intro hsame
      rw [← hsame, hread] at hold
      cases hold
      exact hne hid.symm
    exact ⟨old, rfl, (hother _ hmail).trans hold, hid⟩
  · intro mail stored hstored title htitle
    by_cases hsame : user.email = mail
    · rw [← hsame] at hstored
      exact absurd hstored (hgone stored)
    · rw [hother mail hsame] at hstored
      exact hposition _ (h.position mail stored hstored title htitle)
  · intro entry hentry
    rw [hcounter] at hentry
    exact h.counter entry hentry

/-- Writes of other families keep the records consistent. -/
theorem Consistent.congr (h : Consistent db)
    (hkey : ∀ family rest, family = .userMail ∨ family = .userUuid ∨ family = .userJobPosition →
      next.existsKey (key family rest) = db.existsKey (key family rest))
    (hcounter : next.existsKey lastID = db.existsKey lastID) : Consistent next := by
  refine h.frame (fun mail => hkey _ _ (.inl rfl)) ?_ ?_ hcounter
  · intro id entry hentry
    rwa [hkey _ _ (.inr (.inl rfl))] at hentry
  · intro title htitle
    rwa [isSome_getUserJobPositionKey_congr (hkey _ _ (.inr (.inr rfl)))]

/-! ## Calls that return -/

/-- What `savePerson` did when it returned. -/
theorem savePerson_eq_ok {juser : Json} {forceID id : Long}
    (h : savePerson db juser forceID = (.ok id, next)) :
    ∃ user counted, Person.ofJson juser = .ok user ∧
      db.existsKey (key .userMail user.email) = none ∧ Assigned db forceID id counted ∧
      next = insertPerson counted (registered user id) := by
  rcases savePerson_cases db juser forceID with
    ⟨e, herror⟩ | ⟨user, assigned, counted, hread, hfree, hid, hsaved⟩
  · rw [herror] at h
    cases h
  · rw [hsaved] at h
    cases h
    exact ⟨user, counted, hread, hfree, hid, rfl⟩

/-- What `updateUser` did when it returned. -/
theorem updateUser_eq_ok {juser : Json} {id : Long} (h : updateUser db juser = (.ok id, next)) :
    ∃ newUser oldUser, Person.ofJson juser = .ok newUser ∧
      getUserById db newUser.id = .ok oldUser ∧
      applyUpdate db { newUser with email := oldUser.email } oldUser = (.ok id, next) := by
  rcases updateUser_cases db juser with ⟨e, herror, -⟩ | ⟨newUser, oldUser, hread, hold, happly⟩
  · rw [herror] at h
    cases h
  · exact ⟨newUser, oldUser, hread, hold, happly.symm.trans h⟩

/-- What `deletePerson` did when it returned. -/
theorem deletePerson_eq_ok {id : Long} (h : deletePerson db id = (.ok (), next)) :
    ∃ user, getUserById db id = .ok user ∧ applyDelete db id user = (.ok (), next) := by
  rcases deletePerson_cases db id with ⟨e, -, herror⟩ | ⟨user, hread, happly⟩
  · rw [herror] at h
    cases h
  · exact ⟨user, hread, happly.symm.trans h⟩

/-- What a recommendation leaves of the store: nothing new, only its list, or its list and the
record of the recommended user with another total. -/
inductive Recommended (db : DB) (userId : Long) : DB → Prop where
  | same : Recommended db userId db
  | listed (recommendations : List Long) :
      Recommended db userId
        (RecommendationsManager.saveRecommendations db userId recommendations)
  | counted (recommendations : List Long) (user : Person) (total : Int32)
      (hread : getUserById db userId = .ok user) :
      Recommended db userId
        ((RecommendationsManager.saveRecommendations db userId recommendations).putKey
          (key .userMail user.email)
          (.json ({ user with totRecommendations := total } : Person).serializeMe))

/-- A new total after a new list is a recommendation of the user. -/
theorem recommended_updateTotal (h : Consistent db) {userId : Long}
    (hexists : userExists db userId)
    (recommendations : List Long) (delta : Int32) :
    Recommended db userId (RecommendationsManager.updateTotalRecommendation
      (RecommendationsManager.saveRecommendations db userId recommendations) delta userId).2 := by
  obtain ⟨user, huser⟩ := h.getUserById_of_userExists hexists
  obtain ⟨hmail, hread, -⟩ := h.getUserById_eq_ok.mp huser
  have hkey := fun {family : Prefix} (hfamily : family ≠ .recommendation) rest =>
    @RecommendationsManager.existsKey_key_saveRecommendations db family hfamily rest userId
      recommendations
  have hmail' := (hkey (by decide) (toString userId)).trans hmail
  have hread' := (getUserByMail_congr (hkey (by decide) user.email)).trans hread
  rcases RecommendationsManager.updateTotalRecommendation_cases hmail' hread' delta with
    hover | ⟨total, -, hok⟩
  · rw [hover]
    exact .listed _
  · rw [hok]
    exact .counted _ _ _ huser

/-- Two users of a request are accepted when both exist and differ. -/
theorem validateUsersOfRequest_eq_ok {fromUserId toUserId : Long} :
    validateUsersOfRequest db fromUserId toUserId = .ok () ↔
      userExists db fromUserId ∧ userExists db toUserId ∧ fromUserId ≠ toUserId := by
  unfold validateUsersOfRequest
  generalize "From user and to user cannot be equals".toList = details
  cases userExists db fromUserId <;> cases userExists db toUserId <;> simp

/-- A recommendation that is added changes the list and the total of its target. -/
theorem recommended_addRecommendation (h : Consistent db) {fromId toId : Long}
    (hexists : userExists db toId) :
    Recommended db toId (RecommendationsManager.addRecommendation db fromId toId).2 := by
  rcases RecommendationsManager.addRecommendation_cases db fromId toId with
    hsame | ⟨recommendations, hwritten⟩
  · rw [hsame]
    exact .same
  · rw [hwritten]
    exact recommended_updateTotal h hexists _ _

/-- A recommendation that is taken back changes the list and the total of its target. -/
theorem recommended_removeRecommendation (h : Consistent db) {fromId toId : Long}
    (hexists : userExists db toId) :
    Recommended db toId (RecommendationsManager.removeRecommendation db fromId toId).2 := by
  rcases RecommendationsManager.removeRecommendation_cases db fromId toId with
    hsame | ⟨recommendations, hwritten⟩
  · rw [hsame]
    exact .same
  · rw [hwritten]
    exact recommended_updateTotal h hexists _ _

/-- A request to recommend leaves a recommended user, whatever its outcome. -/
theorem recommended_saveRecommendation (h : Consistent db) (recommendation : Json) :
    ∃ userId, Recommended db userId (saveRecommendation db recommendation).2 := by
  unfold saveRecommendation
  cases hrequest : usersOfRequest db recommendation with
  | error e => exact ⟨0, .same⟩
  | ok users =>
      obtain ⟨fromUserId, toUserId⟩ := users
      simp only [usersOfRequest, bind_eq_ok] at hrequest
      obtain ⟨_, -, source, -, _, -, target, -, _, hvalid, hpair⟩ := hrequest
      cases hpair
      exact ⟨toUserId, recommended_addRecommendation h
        (validateUsersOfRequest_eq_ok.mp hvalid).2.1⟩

/-- The call that takes a recommendation back changes one user at most. -/
theorem recommended_removeRecommendation_call (h : Consistent db) (fromUserId toUserId : Long) :
    ∃ userId, Recommended db userId (removeRecommendation db fromUserId toUserId).2 := by
  unfold removeRecommendation
  cases hvalid : validateUsersOfRequest db fromUserId toUserId with
  | error e => exact ⟨0, .same⟩
  | ok _ =>
      exact ⟨toUserId, recommended_removeRecommendation h
        (validateUsersOfRequest_eq_ok.mp hvalid).2.1⟩

/-! ## Every call keeps the records consistent -/

/-- A registration keeps the store consistent, also when it throws. -/
theorem Consistent.savePerson (h : Consistent db) (juser : Json) (forceID : Long) :
    Consistent (savePerson db juser forceID).2 := by
  rcases savePerson_cases db juser forceID with
    ⟨e, herror⟩ | ⟨user, id, counted, hread, hfree, hid, hsaved⟩
  · rw [herror]
    exact h
  · rw [hsaved]
    have hcounted : ∀ family rest, counted.existsKey (key family rest)
        = db.existsKey (key family rest) := fun family rest => hid.existsKey key_ne_lastID
    refine h.save (normalized_registered (Person.normalized_of_ofJson hread) id) ?_ ?_ ?_ ?_ ?_ ?_
    · intro old hold
      rw [getUserByMail, show (registered user id).email = user.email from rfl, hfree] at hold
      cases hold
    · intro mail
      rw [existsKey_insertPerson (by simp) (by simp), existsKey_saveAccount]
      simp [userNameKey, hcounted]
    · intro other entry hentry
      rw [existsKey_insertPerson (by simp) (by simp), existsKey_saveAccount] at hentry
      simp only [userNameKey, key_inj, reduceCtorEq, false_and, if_false, hcounted, true_and,
        toString_inj] at hentry
      split at hentry
      · rename_i hsame
        cases hentry
        exact .inl ⟨hsame.symm, rfl⟩
      · exact .inr hentry
    · intro title htitle
      refine isSome_getUserJobPositionKey_insertPerson (.inl ?_)
      rwa [isSome_getUserJobPositionKey_congr (hcounted _ _)]
    · intro title htitle
      refine isSome_getUserJobPositionKey_insertPerson (.inr ?_)
      obtain ⟨job, hjob, rfl⟩ := List.mem_map.mp htitle
      exact List.mem_append_left _ (List.mem_map_of_mem hjob)
    · intro entry hentry
      rw [existsKey_insertPerson (by simp) (by simp), existsKey_saveAccount] at hentry
      simp only [userNameKey, key_ne_lastID, if_false] at hentry
      -- an id that is forced leaves the counter alone, else the next number is stored in it
      rcases hid with ⟨-, -, rfl⟩ | ⟨-, hid⟩
      · exact h.counter entry hentry
      · rcases generateID_cases db with ⟨e, herror⟩ | ⟨assigned, hok, -⟩
        · rw [herror] at hid
          cases hid
        · rw [hok] at hid
          cases hid
          rw [DB.existsKey_putKey, if_pos rfl] at hentry
          cases hentry
          exact ⟨_, rfl⟩

/-- An update that throws changes no record. -/
theorem Consistent.applyUpdate_error {newUser oldUser : Person} {e : Exn} (h : Consistent db)
    (houtcome : applyUpdate db newUser oldUser = (.error e, next)) : Consistent next := by
  have hsame : ∀ other, Outside other → next.existsKey other = db.existsKey other :=
    fun other hother => existsKey_applyUpdate_error houtcome hother
  refine h.frame (fun mail => hsame _ (outside_key (by decide) _)) ?_ ?_ (hsame _ outside_lastID)
  · intro id entry hentry
    rwa [hsame _ (outside_key (by decide) _)] at hentry
  · intro title htitle
    have hkept := @isSome_position_applyUpdate db newUser oldUser title htitle
    rwa [houtcome] at hkept

/-- An update that returns saves the new profile over the old one. -/
theorem Consistent.applyUpdate_ok {newUser oldUser : Person} {id : Long} (h : Consistent db)
    (hold : getUserByMail db oldUser.email = .ok oldUser) (hmail : newUser.email = oldUser.email)
    (hid : oldUser.id = newUser.id) (hnormalized : newUser.Normalized)
    (houtcome : applyUpdate db newUser oldUser = (.ok id, next)) : Consistent next := by
  have hafter : ∀ other, Outside other → next.existsKey other = _ := fun other hother =>
    (existsKey_applyUpdate_ok hmail houtcome hother).trans (existsKey_saveUpdated hmail other)
  have hkept : ∀ title, (getUserJobPositionKey db title).isSome →
      (getUserJobPositionKey next title).isSome := by
    intro title htitle
    have hkept := @isSome_position_applyUpdate db newUser oldUser title htitle
    rwa [houtcome] at hkept
  refine h.save (normalized_merged hnormalized oldUser) ?_ ?_ ?_ hkept ?_ ?_
  · intro old hstored
    have hsame : getUserByMail db newUser.email = .ok old := hstored
    rw [hmail, hold] at hsame
    cases hsame
    exact hid
  · intro mail
    rw [hafter _ (outside_key (by decide) _)]
    simp only [key_inj, true_and, reduceCtorEq, false_and, if_false]
    rfl
  · intro other entry hentry
    rw [hafter _ (outside_key (by decide) _)] at hentry
    simp only [key_inj, reduceCtorEq, false_and, if_false] at hentry
    exact .inr hentry
  · intro title htitle
    obtain ⟨job, hjob, rfl⟩ := List.mem_map.mp htitle
    by_cases hadded : lower job.positionTitle ∈ addedTitles newUser oldUser
    · exact isSome_position_added houtcome hadded
    · -- the title in lower case is one of the old profile, whose name is kept
      have hkeep : oldUser.workHistory.any (·.positionTitle = lower job.positionTitle)
          = true := by
        by_contra hnone
        refine hadded (List.mem_map_of_mem ?_)
        exact List.mem_filter.mpr ⟨hjob, by simpa using hnone⟩
      obtain ⟨old, hjobs, hsame⟩ := List.any_eq_true.mp hkeep
      have htitle : old.positionTitle = lower job.positionTitle := by simpa using hsame
      have hthere := h.position _ _ hold old.positionTitle (List.mem_map_of_mem hjobs)
      rw [htitle, lower_lower] at hthere
      exact hkept _ hthere
  · intro entry hentry
    rw [hafter _ outside_lastID] at hentry
    simp only [key_ne_lastID, false_and, if_false] at hentry
    exact h.counter entry hentry

/-- The new profile of an update, with the mail of the old one, is normalized. -/
theorem Consistent.normalized_update {newUser oldUser : Person} {juser : Json} (h : Consistent db)
    (hread : Person.ofJson juser = .ok newUser)
    (hold : getUserByMail db oldUser.email = .ok oldUser) :
    ({ newUser with email := oldUser.email } : Person).Normalized := by
  have hnormalized := Person.normalized_of_ofJson hread
  exact ⟨hnormalized.firstName, hnormalized.lastName, (h.getUserByMail_eq_ok.mp hold).2.2.email,
    hnormalized.city, hnormalized.skills⟩

/-- An update keeps the store consistent, also when it throws. -/
theorem Consistent.updateUser (h : Consistent db) (juser : Json) :
    Consistent (updateUser db juser).2 := by
  rcases updateUser_cases db juser with ⟨e, herror, -⟩ | ⟨newUser, oldUser, hread, hold, happly⟩
  · rw [herror]
    exact h
  · obtain ⟨hmail, hrecord, hid⟩ := h.getUserById_eq_ok.mp hold
    rw [happly]
    rcases houtcome : applyUpdate db { newUser with email := oldUser.email } oldUser with
      ⟨result, next⟩
    cases result with
    | error e => exact h.applyUpdate_error houtcome
    | ok id =>
        refine h.applyUpdate_ok hrecord ?_ ?_ (h.normalized_update hread hrecord) houtcome
        · rfl
        · exact hid

/-- A deletion keeps the store consistent, also when it throws. -/
theorem Consistent.deletePerson (h : Consistent db) (id : Long) :
    Consistent (deletePerson db id).2 := by
  rcases deletePerson_cases db id with ⟨e, -, herror⟩ | ⟨user, hread, happly⟩
  · rw [herror]
    exact h
  · obtain ⟨hmail, hrecord, rfl⟩ := h.getUserById_eq_ok.mp hread
    have hkept : ∀ title, (getUserJobPositionKey db title).isSome →
        (getUserJobPositionKey (applyDelete db user.id user).2 title).isSome :=
      fun title htitle => isSome_position_applyDelete htitle
    rw [happly]
    rcases houtcome : applyDelete db user.id user with ⟨result, next⟩
    rw [houtcome] at hkept
    cases result with
    | error e =>
        -- the id and the password are gone already; the record is still there
        have hafter : ∀ other, Outside other → next.existsKey other = _ := fun other hother =>
          (existsKey_applyDelete_error houtcome hother).trans (existsKey_deleteAccount hother)
        refine h.frame ?_ ?_ hkept ?_
        · intro mail
          rw [hafter _ (outside_key (by decide) _)]
          simp
        · intro other entry hentry
          rw [hafter _ (outside_key (by decide) _)] at hentry
          simp only [key_inj, reduceCtorEq, false_and, false_or, true_and] at hentry
          split at hentry
          · cases hentry
          · exact hentry
        · rw [hafter _ outside_lastID]
          simp
    | ok _ =>
        have hafter : ∀ other, Outside other → next.existsKey other = _ := fun other hother =>
          existsKey_applyDelete_ok houtcome hother
        refine h.delete hrecord ?_ ?_ hkept ?_
        · intro mail
          rw [hafter _ (outside_key (by decide) _),
            existsKey_deleteAccount (outside_key (by decide) _)]
          simp
        · intro other entry hentry
          rw [hafter _ (outside_key (by decide) _),
            existsKey_deleteAccount (outside_key (by decide) _)] at hentry
          simp only [key_inj, reduceCtorEq, false_and, false_or, true_and, if_false,
            toString_inj] at hentry
          split at hentry
          · cases hentry
          · rename_i hne
            exact ⟨fun hsame => hne hsame.symm, hentry⟩
        · rw [hafter _ outside_lastID, existsKey_deleteAccount outside_lastID]
          simp

/-- Recommendations change the total in a record and nothing else of the records. -/
theorem Consistent.recommended (h : Consistent db) {userId : Long}
    (hnext : Recommended db userId next) : Consistent next := by
  cases hnext with
  | same => exact h
  | listed recommendations =>
      refine h.congr ?_ (by simp)
      rintro family rest (rfl | rfl | rfl) <;> simp
  | counted recommendations user total hread =>
      obtain ⟨hmail, hrecord, rfl⟩ := h.getUserById_eq_ok.mp hread
      obtain ⟨hstored, -, hnormalized⟩ := h.getUserByMail_eq_ok.mp hrecord
      have hcounted := normalized_rated hnormalized total
      have hposition : ∀ title,
          (getUserJobPositionKey ((RecommendationsManager.saveRecommendations
          db user.id recommendations).putKey (key .userMail user.email)
          (.json ({ user with totRecommendations := total } : Person).serializeMe)) title).isSome
          = (getUserJobPositionKey db title).isSome := by
        intro title
        refine isSome_getUserJobPositionKey_congr ?_
        simp
      -- the record is saved with another total: it has the same mail, id and positions
      refine h.save hcounted ?_ ?_ ?_ ?_ ?_ ?_
      · intro old hold
        rw [hrecord] at hold
        cases hold
        rfl
      · intro mail
        simp
      · intro other entry hentry
        simp only [DB.existsKey_putKey, key_inj, reduceCtorEq, false_and, if_false] at hentry
        rw [RecommendationsManager.existsKey_key_saveRecommendations (by decide)] at hentry
        exact .inr hentry
      · intro title htitle
        rwa [hposition]
      · intro title htitle
        rw [hposition]
        exact h.position _ _ hrecord title htitle
      · intro entry hentry
        rw [DB.existsKey_putKey, if_neg key_ne_lastID,
          RecommendationsManager.existsKey_lastID_saveRecommendations] at hentry
        exact h.counter entry hentry

/-- Every call keeps the records consistent, whether it returns or throws. -/
theorem Consistent.exec (h : Consistent db) (call : Call) : Consistent (exec db call).2 := by
  cases call with
  | savePerson juser forceID => exact h.savePerson juser forceID
  | updateUser juser => exact h.updateUser juser
  | deletePerson id => exact h.deletePerson id
  | saveOrUpdateRelation relation =>
      refine h.congr ?_ (existsKey_saveOrUpdateRelation (by simp) relation)
      rintro family rest (rfl | rfl | rfl) <;>
        exact existsKey_saveOrUpdateRelation (by simp) relation
  | saveRecommendation recommendation =>
      obtain ⟨userId, hnext⟩ := recommended_saveRecommendation h recommendation
      exact h.recommended hnext
  | removeRecommendation fromUserId toUserId =>
      obtain ⟨userId, hnext⟩ := recommended_removeRecommendation_call h fromUserId toUserId
      exact h.recommended hnext
  | saveMessage now request =>
      refine h.congr ?_ (existsKey_saveMessage (by simp) now request)
      rintro family rest (rfl | rfl | rfl) <;> exact existsKey_saveMessage (by simp) now request
  | setMessagesAsReceived fromUserId toUserId deliveredMessages =>
      refine h.congr ?_ (MessagesManager.existsKey_setMessagesAsReceived (by simp) _)
      rintro family rest (rfl | rfl | rfl) <;>
        exact MessagesManager.existsKey_setMessagesAsReceived (by simp) _
  | setOrUpdateNotificationToken request userId =>
      refine h.congr ?_ (existsKey_setOrUpdateNotificationToken (by simp) request userId)
      rintro family rest (rfl | rfl | rfl) <;>
        exact existsKey_setOrUpdateNotificationToken (by simp) request userId

/-- The records are consistent in every reachable store. -/
theorem Reachable.consistent (h : Reachable db) : Consistent db := by
  obtain ⟨calls, hrun⟩ := h
  refine hrun.invariant Consistent.empty ?_
  rintro before call after hbefore rfl
  exact hbefore.exec call

end TallerII.PersonManager
