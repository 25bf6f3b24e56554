import TallerII.Accounts

/-!
# Ids, mails and passwords

In runs of account calls that return, or that are rejected because a mail is taken or an id is
unknown, the three keys of a user agree with each other, and no id is assigned twice. `Accounts`
is the joint invariant: the ids of records stay below the counter, which is why a new id is fresh.
-/

namespace TallerII.PersonManager

open Manager

variable {db next : DB} {user : Person}

/-! ## The counter -/

/-- The successor of a counter that is not at its end is the next integer. -/
theorem toInt_succ {last : Long} (h : last ≠ Int64.maxValue) :
    (last + 1).toInt = last.toInt + 1 := by
  have hlt : last.toInt < 2 ^ 63 := Int64.toInt_lt last
  have hle : -2 ^ 63 ≤ last.toInt := Int64.le_toInt last
  have hne : last.toInt ≠ 2 ^ 63 - 1 := by
    intro heq
    apply h
    rw [← Int64.toInt_inj, heq]
    decide
  rw [Int64.toInt_add, show (1 : Long).toInt = 1 from by decide]
  rw [Int.bmod_eq_of_le] <;> omega

/-- The counter has reached an id. -/
def Counted (db : DB) (id : Long) : Prop :=
  ∃ last : Long, db.existsKey lastID = some (.text (toString last)) ∧ id.toInt ≤ last.toInt

/-- What was counted depends on the counter alone. -/
theorem Counted.congr {id : Long} (h : Counted db id)
    (hsame : next.existsKey lastID = db.existsKey lastID) : Counted next id := by
  obtain ⟨last, hlast, hle⟩ := h
  exact ⟨last, hsame.trans hlast, hle⟩

/-- `generateID` counts up: the ids counted before are smaller, and the counter reaches the new
one. -/
theorem generateID_fresh {id : Long} (h : generateID db = (.ok id, next)) :
    Counted next id ∧ ∀ other, Counted db other → other.toInt < id.toInt ∧
      Counted next other := by
  rcases generateID_cases db with ⟨e, herror⟩ | ⟨assigned, hok, hcases⟩
  · rw [herror] at h
    cases h
  · rw [hok] at h
    cases h
    have hcounter : (db.putKey lastID (.text (toString id))).existsKey lastID
        = some (.text (toString id)) := by
      rw [DB.existsKey_putKey, if_pos rfl]
    refine ⟨⟨id, hcounter, le_rfl⟩, ?_⟩
    rintro other ⟨last, hlast, hle⟩
    rcases hcases with ⟨hnone, -⟩ | ⟨found, lastId, hfound, hread, hmax, rfl⟩
    · rw [hnone] at hlast
      cases hlast
    · rw [hlast] at hfound
      cases hfound
      have hsame : last = lastId := by
        have hscan : stol (toString last) = .ok lastId := hread
        rw [stol_toString] at hscan
        exact Except.ok.inj hscan
      subst hsame
      have hsucc := toInt_succ hmax
      exact ⟨by omega, last + 1, hcounter, by omega⟩

/-! ## The joint invariant -/

/-- The keys of every user agree, and the counter has reached every id. -/
structure Accounts (db : DB) : Prop where
  consistent : Consistent db
  listed : ∀ mail user, getUserByMail db mail = .ok user →
    db.existsKey (key .userUuid (toString user.id)) = some (.text mail)
  password : ∀ mail, db.existsKey (key .userPassword mail)
    = (getUserByMail db mail).toOption.map fun user => .text user.password
  counted : ∀ mail user, getUserByMail db mail = .ok user → Counted db user.id

/-- An id maps to a mail iff the record under the mail has that id and that mail. -/
theorem Accounts.id_iff (h : Accounts db) (id : Long) (mail : Text) :
    db.existsKey (key .userUuid (toString id)) = some (.text mail) ↔
      ∃ user, getUserByMail db mail = .ok user ∧ user.id = id ∧ user.email = mail := by
  constructor
  · intro hentry
    obtain ⟨user, htext, hread, hid⟩ := h.consistent.account id _ hentry
    have hmail : mail = user.email := Entry.text.inj htext
    subst hmail
    exact ⟨user, hread, hid, rfl⟩
  · rintro ⟨user, hread, rfl, -⟩
    exact h.listed mail user hread

/-- A password is there iff a record is. -/
theorem Accounts.isSome_password (h : Accounts db) (mail : Text) :
    (db.existsKey (key .userPassword mail)).isSome ↔
      (db.existsKey (key .userMail mail)).isSome := by
  rw [h.password]
  constructor
  · intro hpassword
    cases hread : getUserByMail db mail with
    | error e => simp [hread, Except.toOption] at hpassword
    | ok user => simp [(h.consistent.getUserByMail_eq_ok.mp hread).1]
  · intro hrecord
    obtain ⟨user, hread⟩ := h.consistent.getUserByMail_of_existsKey hrecord
    simp [hread, Except.toOption]

/-- Every account has the password of its record. -/
theorem Accounts.password_of_record (h : Accounts db) {mail : Text}
    (hread : getUserByMail db mail = .ok user) :
    db.existsKey (key .userPassword mail) = some (.text user.password) := by
  rw [h.password, hread]
  rfl

/-! ## What keeps the invariant -/

/-- There is no account yet. -/
theorem Accounts.empty : Accounts ∅ := by
  have hnone : ∀ mail, getUserByMail ∅ mail = .error (.userNotFoundMail mail) := by
    intro mail
    simp [getUserByMail]
  refine ⟨Consistent.empty, ?_, ?_, ?_⟩
  · intro mail user hread
    rw [hnone] at hread
    cases hread
  · intro mail
    rw [hnone, DB.existsKey_empty]
    rfl
  · intro mail user hread
    rw [hnone] at hread
    cases hread

/-- Saving a profile with its id and its password keeps the accounts, when the id is its own: no
other record has it. -/
theorem Accounts.save (h : Accounts db) (user : Person) (hnext : Consistent next)
    (hsaved : getUserByMail next user.email = .ok user)
    (hother : ∀ mail, user.email ≠ mail → getUserByMail next mail = getUserByMail db mail)
    (hid : ∀ id, next.existsKey (key .userUuid (toString id))
      = if user.id = id then some (.text user.email)
        else db.existsKey (key .userUuid (toString id)))
    (hown : ∀ mail other, getUserByMail db mail = .ok other → user.email ≠ mail →
      user.id ≠ other.id)
    (hpassword : ∀ mail, next.existsKey (key .userPassword mail)
      = if user.email = mail then some (.text user.password)
        else db.existsKey (key .userPassword mail))
    (hcounted : Counted next user.id) (hkept : ∀ id, Counted db id → Counted next id) :
    Accounts next := by
  refine ⟨hnext, ?_, ?_, ?_⟩
  · intro mail stored hread
    by_cases hmail : user.email = mail
    · rw [← hmail, hsaved] at hread
      cases hread
      rw [hid, if_pos rfl, hmail]
    · rw [hother mail hmail] at hread
      rw [hid, if_neg (hown mail stored hread hmail)]
      exact h.listed mail stored hread
  · intro mail
    rw [hpassword]
    by_cases hmail : user.email = mail
    · rw [if_pos hmail, ← hmail, hsaved]
      rfl
    · rw [if_neg hmail, hother mail hmail]
      exact h.password mail
  · intro mail stored hread
    by_cases hmail : user.email = mail
    · rw [← hmail, hsaved] at hread
      cases hread
      exact hcounted
    · rw [hother mail hmail] at hread
      exact hkept _ (h.counted mail stored hread)

/-- Writes that leave the four families alone keep the accounts. -/
theorem Accounts.congr (h : Accounts db) (hnext : Consistent next)
    (hkey : ∀ family rest, family = .userMail ∨ family = .userUuid ∨ family = .userPassword →
      next.existsKey (key family rest) = db.existsKey (key family rest))
    (hcounter : next.existsKey lastID = db.existsKey lastID) : Accounts next := by
  have hread : ∀ mail, getUserByMail next mail = getUserByMail db mail := fun mail =>
    getUserByMail_congr (hkey _ _ (.inl rfl))
  refine ⟨hnext, ?_, ?_, ?_⟩
  · intro mail user huser
    rw [hread] at huser
    rw [hkey _ _ (.inr (.inl rfl))]
    exact h.listed mail user huser
  · intro mail
    rw [hkey _ _ (.inr (.inr rfl)), hread]
    exact h.password mail
  · intro mail user huser
    rw [hread] at huser
    exact (h.counted mail user huser).congr hcounter

/-- A registration adds an account with an id that was not counted. -/
theorem Accounts.savePerson (h : Accounts db) {juser : Json} {id : Long}
    (hcall : savePerson db juser (-1) = (.ok id, next)) :
    Accounts next ∧ Counted next id ∧
      ∀ other, Counted db other → other.toInt < id.toInt ∧ Counted next other := by
  have hnext : Consistent next := by
    have hsaved := h.consistent.savePerson juser (-1)
    rwa [hcall] at hsaved
  obtain ⟨user, counted, hread, hfree, hassigned, rfl⟩ := savePerson_eq_ok hcall
  have hkeys : ∀ family rest, counted.existsKey (key family rest)
      = db.existsKey (key family rest) :=
    fun family rest => hassigned.existsKey key_ne_lastID
  have hgenerated : generateID db = (.ok id, counted) := by
    rcases hassigned with ⟨hforced, -⟩ | ⟨-, hid⟩
    · exact absurd rfl hforced
    · exact hid
  have hcounter : (insertPerson counted (registered user id)).existsKey lastID
      = counted.existsKey lastID := by
    rw [existsKey_insertPerson (by simp) (by simp), existsKey_saveAccount]
    simp [userNameKey]
  obtain ⟨hnew, hbefore⟩ := generateID_fresh hgenerated
  have hkept : ∀ other, Counted db other → other.toInt < id.toInt ∧
      Counted (insertPerson counted (registered user id)) other :=
    fun other hother => ⟨(hbefore other hother).1, (hbefore other hother).2.congr hcounter⟩
  have hrecord : ∀ mail, (insertPerson counted (registered user id)).existsKey
      (key .userMail mail) = if user.email = mail then
        some (.json (registered user id).serializeMe)
        else db.existsKey (key .userMail mail) := by
    intro mail
    rw [existsKey_insertPerson (by simp) (by simp), existsKey_saveAccount]
    simp [userNameKey, hkeys, registered]
  have hregistered := normalized_registered (Person.normalized_of_ofJson hread) id
  refine ⟨h.save (registered user id) hnext ?_ ?_ ?_ ?_ ?_ (hnew.congr hcounter)
    (fun other hother => (hkept other hother).2), hnew.congr hcounter, hkept⟩
  · refine getUserByMail_of_stored hregistered ?_
    rw [hrecord]
    exact if_pos rfl
  · intro mail hmail
    refine getUserByMail_congr ?_
    rw [hrecord]
    exact if_neg hmail
  · intro other
    rw [existsKey_insertPerson (by simp) (by simp), existsKey_saveAccount]
    simp [userNameKey, hkeys]
  · intro mail other hother _ hsame
    have hlt := (hbefore other.id (h.counted mail other hother)).1
    rw [← hsame] at hlt
    exact lt_irrefl _ hlt
  · intro mail
    rw [existsKey_insertPerson (by simp) (by simp), existsKey_saveAccount]
    simp [userNameKey, hkeys]

/-- Saving over the record of a user, with the same id, keeps the accounts. -/
theorem Accounts.saveOver (h : Accounts db) (user : Person) {old : Person}
    (hold : getUserByMail db user.email = .ok old) (hsame : old.id = user.id)
    (hnext : Consistent next) (huser : user.Normalized)
    (hrecord : ∀ mail, next.existsKey (key .userMail mail)
      = if user.email = mail then some (.json user.serializeMe)
        else db.existsKey (key .userMail mail))
    (hid : ∀ id, next.existsKey (key .userUuid (toString id))
      = db.existsKey (key .userUuid (toString id)))
    (hpassword : ∀ mail, next.existsKey (key .userPassword mail)
      = if user.email = mail then some (.text user.password)
        else db.existsKey (key .userPassword mail))
    (hcounter : next.existsKey lastID = db.existsKey lastID) : Accounts next := by
  have hkept : ∀ id, Counted db id → Counted next id := fun id hcounted => hcounted.congr hcounter
  have holdId : db.existsKey (key .userUuid (toString user.id)) = some (.text user.email) := by
    rw [← hsame]
    exact h.listed _ _ hold
  refine h.save user hnext ?_ ?_ ?_ ?_ hpassword ?_ hkept
  · refine getUserByMail_of_stored huser ?_
    rw [hrecord, if_pos rfl]
  · intro mail hmail
    refine getUserByMail_congr ?_
    rw [hrecord, if_neg hmail]
  · intro other
    rw [hid]
    split
    · rename_i heq
      rw [← heq, holdId]
    · rfl
  · intro mail other hother hmail heq
    have hlisted := h.listed mail other hother
    rw [← heq, holdId] at hlisted
    exact hmail (Entry.text.inj (Option.some.inj hlisted))
  · rw [← hsame]
    exact hkept _ (h.counted _ _ hold)

/-- An update keeps the accounts. -/
theorem Accounts.updateUser (h : Accounts db) {juser : Json} {id : Long}
    (hcall : updateUser db juser = (.ok id, next)) : Accounts next := by
  have hnext : Consistent next := by
    have hupdated := h.consistent.updateUser juser
    rwa [hcall] at hupdated
  obtain ⟨newUser, oldUser, hread, hold, happly⟩ := updateUser_eq_ok hcall
  obtain ⟨-, hrecord, hid⟩ := h.consistent.getUserById_eq_ok.mp hold
  have hnormalized := h.consistent.normalized_update hread hrecord
  generalize hupdated : ({ newUser with email := oldUser.email } : Person) = updated
    at happly hnormalized
  have hmail : updated.email = oldUser.email := by rw [← hupdated]
  have hsame : oldUser.id = updated.id := by rw [← hupdated, hid]
  have hafter : ∀ other, Outside other → next.existsKey other = _ := fun other hother =>
    (existsKey_applyUpdate_ok hmail happly hother).trans (existsKey_saveUpdated hmail other)
  have hmerged := normalized_merged hnormalized oldUser
  have holdRecord : getUserByMail db (mergeUser updated oldUser).email = .ok oldUser := by
    show getUserByMail db updated.email = .ok oldUser
    rw [hmail, hrecord]
  refine h.saveOver (mergeUser updated oldUser) holdRecord hsame hnext hmerged ?_ ?_ ?_ ?_
  · intro mail
    rw [hafter _ (outside_key (by decide) _)]
    simp only [key_inj, true_and, reduceCtorEq, false_and, if_false]
    rfl
  · intro other
    rw [hafter _ (outside_key (by decide) _)]
    simp
  · intro mail
    have hpassword := h.password_of_record holdRecord
    rw [hafter _ (outside_key (by decide) _)]
    simp only [key_inj, true_and, reduceCtorEq, false_and, if_false]
    show _ = if updated.email = mail then
      some (Entry.text (mergeUser updated oldUser).password) else _
    by_cases heq : updated.email = mail
    · rw [if_pos heq, ← heq]
      have hentry : db.existsKey (key .userPassword updated.email)
          = some (.text oldUser.password) := hpassword
      by_cases hnone : updated.password = []
      · simp [hnone, hentry, mergeUser]
      · by_cases hunchanged : oldUser.password = updated.password
        · simp [hunchanged, hentry, mergeUser, hnone]
        · simp [hunchanged, hnone, mergeUser]
    · simp [heq]
  · rw [hafter _ outside_lastID]
    simp

/-- A deletion takes an account away and keeps the others. -/
theorem Accounts.deletePerson (h : Accounts db) {id : Long}
    (hcall : deletePerson db id = (.ok (), next)) : Accounts next := by
  have hnext : Consistent next := by
    have hdeleted := h.consistent.deletePerson id
    rwa [hcall] at hdeleted
  obtain ⟨user, hread, happly⟩ := deletePerson_eq_ok hcall
  obtain ⟨hmail, hrecord, rfl⟩ := h.consistent.getUserById_eq_ok.mp hread
  have hafter : ∀ other, Outside other → next.existsKey other
      = if key .userMail user.email = other then none
        else if key .userPassword user.email = other ∨ key .userUuid (toString user.id) = other
          then none else db.existsKey other := by
    intro other hother
    rw [existsKey_applyDelete_ok happly hother, existsKey_deleteAccount hother]
  have hcounter : next.existsKey lastID = db.existsKey lastID := by
    rw [hafter _ outside_lastID]
    simp
  have hgone : ∀ mail, next.existsKey (key .userMail mail)
      = if user.email = mail then none else db.existsKey (key .userMail mail) := by
    intro mail
    rw [hafter _ (outside_key (by decide) _)]
    simp
  have hview := getUserByMail_of_deleted hgone
  -- a user who is still read has another mail
  have hstays : ∀ mail stored, getUserByMail next mail = .ok stored →
      user.email ≠ mail ∧ getUserByMail db mail = .ok stored := by
    intro mail stored hstored
    rw [hview] at hstored
    split at hstored
    · cases hstored
    · rename_i hne
      exact ⟨hne, hstored⟩
  refine ⟨hnext, ?_, ?_, ?_⟩
  · intro mail stored hstored
    obtain ⟨hmailNe, hstored⟩ := hstays mail stored hstored
    have hlisted := h.listed mail stored hstored
    -- two users with one id would be listed with one mail
    have hne : user.id ≠ stored.id := by
      intro hsame
      rw [← hsame, hmail] at hlisted
      exact hmailNe (Entry.text.inj (Option.some.inj hlisted))
    rw [hafter _ (outside_key (by decide) _)]
    simp [hne, hlisted]
  · intro mail
    rw [hafter _ (outside_key (by decide) _), hview]
    by_cases heq : user.email = mail
    · simp [heq, Except.toOption]
    · simp [heq, h.password]
  · intro mail stored hstored
    exact (h.counted mail stored (hstays mail stored hstored).2).congr hcounter

/-- Recommendations rewrite the record with the same id and password. -/
theorem Accounts.recommended (h : Accounts db) {userId : Long}
    (hnext : Recommended db userId next) :
    Accounts next ∧ next.existsKey lastID = db.existsKey lastID := by
  have hconsistent := h.consistent.recommended hnext
  have hlist : ∀ recommendations other, (∀ rest, other ≠ key .recommendation rest) →
      (RecommendationsManager.saveRecommendations db userId recommendations).existsKey other
        = db.existsKey other := fun recommendations other hother =>
    RecommendationsManager.existsKey_saveRecommendations hother _ _
  cases hnext with
  | same => exact ⟨h, rfl⟩
  | listed recommendations =>
      refine ⟨h.congr hconsistent ?_ (hlist _ _ (by simp)), hlist _ _ (by simp)⟩
      rintro family rest (rfl | rfl | rfl) <;> exact hlist _ _ (by simp)
  | counted recommendations user total hread =>
      obtain ⟨-, hrecord, rfl⟩ := h.consistent.getUserById_eq_ok.mp hread
      obtain ⟨-, -, hnormalized⟩ := h.consistent.getUserByMail_eq_ok.mp hrecord
      have hcounted := normalized_rated hnormalized total
      refine ⟨h.saveOver { user with totRecommendations := total } hrecord rfl hconsistent
        hcounted
        ?_ ?_ ?_ ?_, ?_⟩
      · intro mail
        simp [hlist]
      · intro other
        simp [hlist]
      · intro mail
        have hpassword := h.password_of_record hrecord
        simp only [DB.existsKey_putKey, key_inj, reduceCtorEq, false_and, if_false]
        rw [hlist _ _ (by simp)]
        split
        · rename_i heq
          rw [← heq, hpassword]
        · rfl
      · simp [hlist]
      · simp [hlist]

/-! ## Runs -/

/-- The account operations; `savePerson` with its default id. -/
def IsAccountCall : Call → Prop
  | .savePerson _ forceID => forceID = -1
  | .updateUser _ => True
  | .deletePerson _ => True
  | .saveRecommendation _ => True
  | .removeRecommendation _ _ => True
  | _ => False

/-- A call rejected because the mail is taken, or because of an id that is not there. -/
def Rejected (db : DB) (thrown : Exn) : Prop :=
  thrown = .userAlreadyExists ∨ ∃ id, thrown = .userNotFoundId id ∧ userExists db id = false

/-- An account call with its outcome: it returns or is rejected. -/
def Settles (db : DB) (event : Call × Outcome) (next : DB) : Prop :=
  IsAccountCall event.1 ∧ exec db event.1 = (event.2, next) ∧
    ∀ thrown, event.2 = .error thrown → Rejected db thrown

/-- The id that an event assigned. -/
def assignedId : Call × Outcome → Option Long
  | (.savePerson _ _, .ok id) => id
  | _ => none

/-- A deletion that throws half-way reports the id. -/
theorem applyDelete_error {id : Long} {user : Person} {thrown : Exn}
    (h : applyDelete db id user = (.error thrown, next)) : thrown = .userNotFoundId id := by
  unfold applyDelete at h
  split at h
  · cases h
    rfl
  · split at h
    · cases h
      rfl
    · cases h

/-- An update that throws has written nothing but a name and lists of mails. -/
theorem Accounts.thrown_updateUser (h : Accounts db) (hnext : Consistent next) {juser : Json}
    {thrown : Exn} (hthrown : PersonManager.updateUser db juser = (.error thrown, next)) :
    Accounts next ∧ next.existsKey lastID = db.existsKey lastID := by
  rcases updateUser_cases db juser with ⟨e, herror, -⟩ | ⟨_, _, _, _, happly⟩
  · rw [herror] at hthrown
    cases hthrown
    exact ⟨h, rfl⟩
  · rw [happly] at hthrown
    have hsame : ∀ other, Outside other → next.existsKey other = db.existsKey other :=
      fun other hother => existsKey_applyUpdate_error hthrown hother
    refine ⟨h.congr hnext ?_ (hsame _ outside_lastID), hsame _ outside_lastID⟩
    rintro family rest (rfl | rfl | rfl) <;> exact hsame _ (outside_key (by decide) _)

/-- A deletion that is rejected has read nothing: one that throws half-way reports an id that was
there. -/
theorem Accounts.rejected_deletePerson (h : Accounts db) {id : Long} {thrown : Exn}
    (hthrown : PersonManager.deletePerson db id = (.error thrown, next))
    (hrejected : Rejected db thrown) :
    Accounts next ∧ next.existsKey lastID = db.existsKey lastID := by
  rcases deletePerson_cases db id with ⟨e, -, herror⟩ | ⟨user, hread, happly⟩
  · rw [herror] at hthrown
    cases hthrown
    exact ⟨h, rfl⟩
  · rw [happly] at hthrown
    obtain ⟨hmail, -, -⟩ := h.consistent.getUserById_eq_ok.mp hread
    have hthere : userExists db id = true := by
      simp [userExists, hmail]
    obtain rfl := applyDelete_error hthrown
    rcases hrejected with hmailTaken | ⟨other, hsame, hunknown⟩
    · cases hmailTaken
    · cases hsame
      rw [hthere] at hunknown
      cases hunknown

/-- A call that is rejected, or that only reads before it throws, keeps the accounts. -/
theorem Accounts.rejected (h : Accounts db) {call : Call} {thrown : Exn}
    (hcall : IsAccountCall call) (hexec : exec db call = (.error thrown, next))
    (hrejected : Rejected db thrown) :
    Accounts next ∧ next.existsKey lastID = db.existsKey lastID := by
  have hnext : Consistent next := by
    have hexecuted := h.consistent.exec call
    rwa [hexec] at hexecuted
  cases call with
  | savePerson juser forceID =>
      have hthrown := outcome_eq_error.mp hexec
      rcases savePerson_cases db juser forceID with ⟨e, herror⟩ | ⟨_, _, _, _, _, _, hsaved⟩
      · rw [herror] at hthrown
        cases hthrown
        exact ⟨h, rfl⟩
      · rw [hsaved] at hthrown
        cases hthrown
  | updateUser juser => exact h.thrown_updateUser hnext (outcome_eq_error.mp hexec)
  | deletePerson id => exact h.rejected_deletePerson (outcome_eq_error.mp hexec) hrejected
  | saveRecommendation recommendation =>
      obtain ⟨userId, hleft⟩ := recommended_saveRecommendation h.consistent recommendation
      have hthrown := outcome_eq_error.mp hexec
      rw [hthrown] at hleft
      exact h.recommended hleft
  | removeRecommendation fromUserId toUserId =>
      obtain ⟨userId, hleft⟩ :=
        recommended_removeRecommendation_call h.consistent fromUserId toUserId
      have hthrown := outcome_eq_error.mp hexec
      rw [hthrown] at hleft
      exact h.recommended hleft
  | saveOrUpdateRelation => exact absurd hcall id
  | saveMessage => exact absurd hcall id
  | setMessagesAsReceived => exact absurd hcall id
  | setOrUpdateNotificationToken => exact absurd hcall id

/-- A call that returns keeps the accounts; it assigns no id or a new one. -/
theorem Accounts.returned (h : Accounts db) {call : Call} {result : Option Long}
    (hcall : IsAccountCall call) (hexec : exec db call = (.ok result, next)) :
    Accounts next ∧ (∀ other, Counted db other → Counted next other) ∧
      ∀ id, assignedId (call, .ok result) = some id →
        Counted next id ∧ ∀ other, Counted db other → other.toInt < id.toInt := by
  cases call with
  | savePerson juser forceID =>
      -- only a registration takes an id from the counter; the other calls keep the counter
      obtain rfl : forceID = -1 := hcall
      obtain ⟨id, hsaved, rfl⟩ := outcome_eq_ok.mp hexec
      obtain ⟨hnext, hnew, hbefore⟩ := h.savePerson hsaved
      refine ⟨hnext, fun other hother => (hbefore other hother).2, ?_⟩
      intro assigned hassigned
      cases hassigned
      exact ⟨hnew, fun other hother => (hbefore other hother).1⟩
  | updateUser juser =>
      obtain ⟨id, hupdated, rfl⟩ := outcome_eq_ok.mp hexec
      have hcounter : next.existsKey lastID = db.existsKey lastID := by
        obtain ⟨newUser, oldUser, -, -, happly⟩ := updateUser_eq_ok hupdated
        have hmail : ({ newUser with email := oldUser.email } : Person).email
          = oldUser.email := rfl
        rw [existsKey_applyUpdate_ok hmail happly outside_lastID, existsKey_saveUpdated hmail]
        simp
      exact ⟨h.updateUser hupdated, fun other hother => hother.congr hcounter,
        fun assigned hassigned => by cases hassigned⟩
  | deletePerson id =>
      obtain ⟨_, hdeleted, rfl⟩ := outcome_eq_ok.mp hexec
      have hcounter : next.existsKey lastID = db.existsKey lastID := by
        obtain ⟨user, -, happly⟩ := deletePerson_eq_ok hdeleted
        rw [existsKey_applyDelete_ok happly outside_lastID,
          existsKey_deleteAccount outside_lastID]
        simp
      exact ⟨h.deletePerson hdeleted, fun other hother => hother.congr hcounter,
        fun assigned hassigned => by cases hassigned⟩
  | saveRecommendation recommendation =>
      obtain ⟨_, hsaved, rfl⟩ := outcome_eq_ok.mp hexec
      obtain ⟨userId, hleft⟩ := recommended_saveRecommendation h.consistent recommendation
      rw [hsaved] at hleft
      obtain ⟨hnext, hcounter⟩ := h.recommended hleft
      exact ⟨hnext, fun other hother => hother.congr hcounter,
        fun assigned hassigned => by cases hassigned⟩
  | removeRecommendation fromUserId toUserId =>
      obtain ⟨_, hremoved, rfl⟩ := outcome_eq_ok.mp hexec
      obtain ⟨userId, hleft⟩ :=
        recommended_removeRecommendation_call h.consistent fromUserId toUserId
      rw [hremoved] at hleft
      obtain ⟨hnext, hcounter⟩ := h.recommended hleft
      exact ⟨hnext, fun other hother => hother.congr hcounter,
        fun assigned hassigned => by cases hassigned⟩
  | saveOrUpdateRelation => exact absurd hcall id
  | saveMessage => exact absurd hcall id
  | setMessagesAsReceived => exact absurd hcall id
  | setOrUpdateNotificationToken => exact absurd hcall id

/-- The accounts together with the ids assigned so far: the counter has reached each of them, and
none was assigned twice. -/
structure Assignments (events : List (Call × Outcome)) (db : DB) : Prop where
  accounts : Accounts db
  counted : ∀ id ∈ events.filterMap assignedId, Counted db id
  nodup : (events.filterMap assignedId).Nodup

/-- One call keeps the assignment of ids. -/
theorem Assignments.step {events : List (Call × Outcome)} {event : Call × Outcome}
    (h : Assignments events db) (hstep : Settles db event next) :
    Assignments (events ++ [event]) next := by
  obtain ⟨call, result⟩ := event
  obtain ⟨hcall, hexec, hrejected⟩ := hstep
  cases result with
  | error thrown =>
      obtain ⟨hnext, hcounter⟩ := h.accounts.rejected hcall hexec (hrejected thrown rfl)
      have hnone : assignedId (call, .error thrown) = none := by cases call <;> rfl
      refine ⟨hnext, ?_, ?_⟩
      · intro id hid
        rw [List.filterMap_append, List.filterMap_cons_none hnone, List.filterMap_nil,
          List.append_nil] at hid
        exact (h.counted id hid).congr hcounter
      · rw [List.filterMap_append, List.filterMap_cons_none hnone, List.filterMap_nil,
          List.append_nil]
        exact h.nodup
  | ok result =>
      obtain ⟨hnext, hkept, hnew⟩ := h.accounts.returned hcall hexec
      cases hassigned : assignedId (call, .ok result) with
      | none =>
          refine ⟨hnext, ?_, ?_⟩
          · intro id hid
            rw [List.filterMap_append, List.filterMap_cons_none hassigned, List.filterMap_nil,
              List.append_nil] at hid
            exact hkept id (h.counted id hid)
          · rw [List.filterMap_append, List.filterMap_cons_none hassigned, List.filterMap_nil,
              List.append_nil]
            exact h.nodup
      | some id =>
          obtain ⟨hcounted, hfresh⟩ := hnew id hassigned
          have hids : (events ++ [(call, Except.ok result)]).filterMap assignedId
              = events.filterMap assignedId ++ [id] := by
            rw [List.filterMap_append, List.filterMap_cons_some hassigned, List.filterMap_nil]
          refine ⟨hnext, ?_, ?_⟩
          · intro other hother
            rw [hids] at hother
            rcases List.mem_append.mp hother with hold | hlast
            · exact hkept other (h.counted other hold)
            · rw [List.mem_singleton.mp hlast]
              exact hcounted
          · -- every assigned id is counted, and the new one lies above all that are
            have hnotin : id ∉ events.filterMap assignedId := by
              intro hmem
              exact lt_irrefl _ (hfresh id (h.counted id hmem))
            rw [hids]
            exact List.nodup_append.mpr ⟨h.nodup, List.nodup_singleton id, by
              intro old hold other hother heq
              rw [List.mem_singleton.mp hother] at heq
              exact hnotin (heq ▸ hold)⟩

/-- After a run of account calls that return or are rejected: an id maps to a mail iff the record
under the mail has that id and that mail; a password is stored iff the record is, and is the one
of the record; and no id was assigned twice. -/
theorem accounts_agree {events : List (Call × Outcome)} (h : Lib.Run Settles ∅ events db) :
    (∀ id mail, db.existsKey (key .userUuid (toString id)) = some (.text mail) ↔
      ∃ user, getUserByMail db mail = .ok user ∧ user.id = id ∧ user.email = mail) ∧
    (∀ mail, (db.existsKey (key .userPassword mail)).isSome ↔
      (db.existsKey (key .userMail mail)).isSome) ∧
    (∀ mail, (db.existsKey (key .userMail mail)).isSome → ∃ user,
      getUserByMail db mail = .ok user ∧
        db.existsKey (key .userPassword mail) = some (.text user.password)) ∧
    (events.filterMap assignedId).Nodup := by
  have hall : Assignments events db := by
    refine h.history ⟨Accounts.empty, by simp, List.nodup_nil⟩ ?_
    intro events db event next hbefore hstep
    exact hbefore.step hstep
  refine ⟨hall.accounts.id_iff, hall.accounts.isSome_password, ?_, hall.nodup⟩
  intro mail hrecord
  obtain ⟨user, hread⟩ := hall.accounts.consistent.getUserByMail_of_existsKey hrecord
  exact ⟨user, hread, hall.accounts.password_of_record hread⟩

/-- A user registers, and a second registration with the same mail is rejected. -/
theorem accounts_agree_taken :
    ([(Call.savePerson (Person.sample ['a'] [] []).serializeMe (-1), .ok (some 1)),
      (Call.savePerson (Person.sample ['a'] [] []).serializeMe (-1), .error .userAlreadyExists)]
        |>.filterMap assignedId).Nodup := by
  let call := Call.savePerson (Person.sample ['a'] [] []).serializeMe (-1)
  have hfirst : Settles ∅ (call, .ok (some 1)) (execAll [call]) :=
    ⟨rfl, exec_execAll [] (by decide), by simp⟩
  have hsecond : Settles (execAll [call]) (call, .error .userAlreadyExists)
      (execAll [call, call]) := by
    refine ⟨rfl, exec_execAll [call] (by decide), ?_⟩
    intro thrown hthrown
    cases hthrown
    exact .inl rfl
  exact (accounts_agree ((Lib.Run.nil.snoc hfirst).snoc hsecond)).2.2.2

end TallerII.PersonManager
