import TallerII.Events

/-!
# Logging in with a password

A login looks for the mail as it is given, and registering a user puts the mail in lower case.
`login_of_registered` says that a user can log in with the mail and the password of the
registration iff the mail was in lower case; `login_sound` says that a login with a password that
is not empty needs the password that the owner of the account chose last.
-/

namespace TallerII

open Manager PersonManager SessionManager Lib

variable {clock : Clock} {db next : DB}

/-! ## Mails with a password -/

/-- Passwords are kept under mails in lower case. -/
def LowerMails (db : DB) : Prop :=
  ∀ mail, (db.existsKey (key .userPassword mail)).isSome → lower mail = mail

/-- There is no mail yet. -/
theorem lowerMails_empty : LowerMails ∅ := by
  intro mail hsome
  rw [DB.existsKey_empty] at hsome
  cases hsome

/-- Which mails there are depends on the passwords alone. -/
theorem LowerMails.congr (h : LowerMails db)
    (hsame : ∀ mail, next.existsKey (key .userPassword mail)
      = db.existsKey (key .userPassword mail)) : LowerMails next := by
  intro mail hsome
  rw [hsame] at hsome
  exact h mail hsome

/-- A password is only ever written for a mail in lower case. -/
theorem LowerMails.effect (h : LowerMails db) (hdb : Consistent db) {call : Call}
    {result : Outcome}
    (heffect : Effect db call result next) : LowerMails next := by
  cases heffect with
  | kept _ hsame => exact h.congr fun mail => hsame .userPassword mail (.inr (.inr rfl))
  | @registered juser forceID id user counted _ hread _ _ _ _ hpassword =>
      intro mail hsome
      rw [hpassword] at hsome
      split at hsome
      · rename_i hmail
        rw [← hmail]
        exact (Person.normalized_of_ofJson hread).email
      · exact h mail hsome
  | @updated juser newUser oldUser _ _ hold _ _ hpassword =>
      obtain ⟨-, hread, -⟩ := hdb.getUserById_eq_ok.mp hold
      intro mail hsome
      rw [hpassword] at hsome
      split at hsome
      · rename_i hmail
        rw [← hmail.1]
        exact (hdb.getUserByMail_eq_ok.mp hread).2.2.email
      · exact h mail hsome
  | recommended _ _ _ hsame => exact h.congr fun mail => hsame .userPassword mail (.inr rfl)
  | deleted _ _ _ hpassword =>
      intro mail hsome
      rw [hpassword] at hsome
      split at hsome
      · cases hsome
      · exact h mail hsome
  | halfDeleted _ _ _ hpassword =>
      intro mail hsome
      rw [hpassword] at hsome
      split at hsome
      · cases hsome
      · exact h mail hsome

/-- What a run keeps. -/
theorem consistent_of_happens {start : DB} {events : List Event}
    (hstart : Consistent start ∧ LowerMails start) (h : Run (Happens clock) start events db) :
    Consistent db ∧ LowerMails db := by
  induction h with
  | nil => exact hstart
  | snoc _ hlast ih =>
      obtain ⟨hdb, hlower⟩ := ih
      refine ⟨hlast.consistent hdb, ?_⟩
      rcases hlast.effect hdb with ⟨-, htokens⟩ | ⟨call, result, -, -, heffect⟩
      · exact hlower.congr fun mail => htokens.ofUser (.inr (.inr rfl)) mail
      · exact hlower.effect hdb heffect

/-! ## A user who registered -/

/-- The mail has a user with the id, and the password. -/
structure Enrolled (mail chosen : Text) (id : Long) (db : DB) : Prop where
  password : db.existsKey (key .userPassword mail) = some (.text chosen)
  record : ∃ user, getUserByMail db mail = .ok user ∧ user.id = id

/-- The call does not find the user of the mail in order to delete the user. -/
def Stays (mail : Text) (db : DB) : Call → Prop
  | .deletePerson id => ∀ user, getUserById db id = .ok user → user.email ≠ mail
  | _ => True

/-- The call does not give the user of the mail another password. -/
def LeavesPassword (mail chosen : Text) (db : DB) : Call → Prop
  | .updateUser juser => ∀ newUser oldUser, Person.ofJson juser = .ok newUser →
    getUserById db newUser.id = .ok oldUser → oldUser.email = mail →
    (∃ id, (exec db (.updateUser juser)).1 = .ok id) →
    newUser.password = [] ∨ newUser.password = chosen
  | _ => True

/-- Who is enrolled depends on the password and the record alone. -/
theorem Enrolled.congr {mail chosen : Text} {id : Long} (h : Enrolled mail chosen id db)
    (hpassword : next.existsKey (key .userPassword mail) = db.existsKey (key .userPassword mail))
    (hrecord : getUserByMail next mail = getUserByMail db mail) :
      Enrolled mail chosen id next := by
  refine ⟨hpassword.trans h.password, ?_⟩
  rw [hrecord]
  exact h.record

/-- A user stays enrolled through an update, with the new password if the update gives one. -/
theorem Enrolled.of_updated {mail chosen : Text} {id : Long} (h : Enrolled mail chosen id db)
    (hdb : Consistent db) {juser : Json} {newUser oldUser : Person} {returned : Option Long}
    (hresult : (exec db (.updateUser juser)).1 = .ok returned)
    (hprofile : Person.ofJson juser = .ok newUser)
    (hold : getUserById db newUser.id = .ok oldUser)
    (hrecord : ∀ mail, next.existsKey (key .userMail mail)
      = if oldUser.email = mail then some (.json (updated newUser oldUser).serializeMe)
        else db.existsKey (key .userMail mail))
    (hwritten : ∀ mail, next.existsKey (key .userPassword mail)
      = if oldUser.email = mail ∧ newUser.password ≠ [] ∧
          oldUser.password ≠ newUser.password then some (.text newUser.password)
        else db.existsKey (key .userPassword mail)) :
    ∃ current, Enrolled mail current id next ∧
      (LeavesPassword mail chosen db (.updateUser juser) → current = chosen) := by
  obtain ⟨user, hread, hid⟩ := h.record
  obtain ⟨-, holdRecord, holdId⟩ := hdb.getUserById_eq_ok.mp hold
  have hafter := getUserByMail_of_saved (hdb.normalized_updated hprofile holdRecord) hrecord mail
  by_cases hmail : oldUser.email = mail
  · subst hmail
    rw [hread] at holdRecord
    cases holdRecord
    have hrecordAfter := hafter.trans (if_pos rfl)
    by_cases hchanged : newUser.password ≠ [] ∧ oldUser.password ≠ newUser.password
    · refine ⟨newUser.password, ⟨?_, _, hrecordAfter, holdId.symm.trans hid⟩, fun hleaves => ?_⟩
      · rw [hwritten, if_pos ⟨rfl, hchanged⟩]
      · rcases hleaves newUser oldUser hprofile hold rfl ⟨_, hresult⟩ with hnil | hsame
        · exact absurd hnil hchanged.1
        · exact hsame
    · refine ⟨chosen, ⟨?_, _, hrecordAfter, holdId.symm.trans hid⟩, fun _ => rfl⟩
      rw [hwritten, if_neg fun hboth => hchanged hboth.2]
      exact h.password
  · refine ⟨chosen, h.congr ?_ ?_, fun _ => rfl⟩
    · rw [hwritten, if_neg fun hboth => hmail hboth.1]
    · exact hafter.trans (if_neg hmail)

/-- A user stays enrolled through a call that does not delete the user; the password is another
one only when the call gives another one. -/
theorem Enrolled.effect {mail chosen : Text} {id : Long} (h : Enrolled mail chosen id db)
    (hdb : Consistent db) {call : Call} {result : Outcome} (hresult : (exec db call).1 = result)
    (heffect : Effect db call result next) (hstays : Stays mail db call) :
    ∃ current, Enrolled mail current id next ∧
      (LeavesPassword mail chosen db call → current = chosen) := by
  obtain ⟨user, hread, hid⟩ := h.record
  cases heffect with
  | kept _ hsame =>
      refine ⟨chosen, h.congr ?_ (getUserByMail_congr ?_), fun _ => rfl⟩
      · exact hsame _ _ (.inr (.inr rfl))
      · exact hsame _ _ (.inl rfl)
  | @registered juser forceID assigned newUser counted _ _ hfree _ hrecord _ hwritten =>
      -- the mail of the new user was free, so it is another one
      have hother : newUser.email ≠ mail := by
        rintro rfl
        rw [(hdb.getUserByMail_eq_ok.mp hread).1] at hfree
        cases hfree
      refine ⟨chosen, h.congr ?_ (getUserByMail_congr ?_), fun _ => rfl⟩
      · rw [hwritten, if_neg hother]
      · rw [hrecord, if_neg hother]
  | updated hprofile hold hrecord _ hwritten =>
      exact h.of_updated hdb hresult hprofile hold hrecord hwritten
  | @recommended _ _ rated total _ _ hrated hrecord hsame =>
      have hnormalized := (hdb.getUserByMail_eq_ok.mp hrated).2.2
      have hafter := getUserByMail_of_saved (normalized_rated hnormalized total) hrecord mail
      refine ⟨chosen, ⟨(hsame _ _ (.inr rfl)).trans h.password, ?_⟩, fun _ => rfl⟩
      rw [hafter]
      split
      · rename_i hmail
        have hmail : rated.email = mail := hmail
        rw [hmail, hread] at hrated
        cases hrated
        exact ⟨_, rfl, hid⟩
      · exact ⟨user, hread, hid⟩
  | deleted hfound hrecord _ hwritten =>
      have hother := hstays _ hfound
      refine ⟨chosen, h.congr ?_ (getUserByMail_congr ?_), fun _ => rfl⟩
      · rw [hwritten, if_neg hother]
      · rw [hrecord, if_neg hother]
  | halfDeleted hfound hrecord _ hwritten =>
      have hother := hstays _ hfound
      refine ⟨chosen, h.congr ?_ (getUserByMail_congr (hrecord mail)), fun _ => rfl⟩
      rw [hwritten, if_neg hother]

/-- The events of a run that does not delete the user of a mail. -/
def Spared (mail : Text) (db : DB) (event : Event) : Prop :=
  ∀ call, event.Makes db call → Stays mail db call

/-- The events of a run that does not give the user of a mail another password. -/
def Unchanged (mail chosen : Text) (db : DB) (event : Event) : Prop :=
  ∀ call, event.Makes db call → LeavesPassword mail chosen db call

/-- An event that spares the user leaves the user enrolled. -/
theorem Enrolled.happens {mail chosen : Text} {id : Long} (h : Enrolled mail chosen id db)
    (hdb : Consistent db) {event : Event} (hstep : Happens clock db event next)
    (hspared : Spared mail db event) :
    ∃ current, Enrolled mail current id next ∧
      (Unchanged mail chosen db event → current = chosen) := by
  rcases hstep.effect hdb with ⟨-, htokens⟩ | ⟨call, result, hmakes, hresult, heffect⟩
  · refine ⟨chosen, h.congr ?_ (htokens.getUserByMail mail), fun _ => rfl⟩
    exact htokens.ofUser (.inr (.inr rfl)) mail
  · obtain ⟨current, henrolled, hsame⟩ := h.effect hdb hresult heffect (hspared call hmakes)
    exact ⟨current, henrolled, fun hunchanged => hsame (hunchanged call hmakes)⟩

/-- A user who is not deleted stays enrolled. -/
theorem Enrolled.of_spared {mail chosen : Text} {id : Long} {later : List Event} {start : DB}
    (h : Enrolled mail chosen id start) (hstart : Consistent start)
    (hrun : Run (Guarded (Happens clock) (Spared mail)) start later db) :
    Consistent db ∧ ∃ current, Enrolled mail current id db := by
  induction hrun with
  | nil => exact ⟨hstart, chosen, h⟩
  | snoc _ hlast ih =>
      obtain ⟨hdb, current, henrolled⟩ := ih
      obtain ⟨following, hnext, -⟩ := henrolled.happens hdb hlast.1 hlast.2
      exact ⟨hlast.1.consistent hdb, following, hnext⟩

/-- A user who is not deleted, and gets no other password, stays enrolled with the password. -/
theorem Enrolled.of_run {mail chosen : Text} {id : Long} {later : List Event} {start : DB}
    (h : Enrolled mail chosen id start) (hstart : Consistent start)
    (hrun : Run (Guarded (Happens clock) fun db event =>
      Spared mail db event ∧ Unchanged mail chosen db event) start later db) :
    Enrolled mail chosen id db := by
  suffices hboth : Consistent db ∧ Enrolled mail chosen id db from hboth.2
  induction hrun with
  | nil => exact ⟨hstart, h⟩
  | snoc _ hlast ih =>
      obtain ⟨hdb, henrolled⟩ := ih
      obtain ⟨hstep, hspared, hunchanged⟩ := hlast
      obtain ⟨current, hnext, hsame⟩ := henrolled.happens hdb hstep hspared
      rw [hsame hunchanged] at hnext
      exact ⟨hstep.consistent hdb, hnext⟩

/-- Whoever is enrolled gets in with the password. -/
theorem Enrolled.login {mail chosen : Text} {id : Long} (h : Enrolled mail chosen id db)
    (now : Int)
    (token : Text) :
    ∃ next, login clock db now token mail chosen = (.ok token, next) ∧
      getUserId next token = .ok id := by
  obtain ⟨user, hread, hid⟩ := h.record
  refine ⟨putToken clock db now token mail user.id, ?_, ?_⟩
  · rw [SessionManager.login, h.password]
    simp [Entry.asText, saveToken, hread]
  · rw [getUserId_putToken, hid]

/-- A registration enrols the user under the mail in lower case. -/
theorem enrolled_of_savePerson (hdb : Consistent db) {juser : Json} {forceID id : Long}
    {mail chosen : Text} (hmail : juser.stringMember "email" = .ok mail)
    (hchosen : juser.stringMember "password" = .ok chosen)
    (hsave : savePerson db juser forceID = (.ok id, next)) :
      Enrolled (lower mail) chosen id next := by
  have heffect : Effect db (.savePerson juser forceID) (.ok (some id)) next := by
    have heffect := effect_exec hdb (.savePerson juser forceID)
    rwa [exec, hsave] at heffect
  cases heffect with
  | kept hthrown =>
      obtain ⟨e, he⟩ := hthrown trivial
      cases he
  | recommended hcall => exact absurd trivial hcall
  | @registered _ _ _ user counted _ hread _ _ hrecord _ hpassword =>
      obtain ⟨⟨email, hemail, hlower⟩, hstored⟩ := Person.login_of_ofJson hread
      rw [hmail] at hemail
      cases hemail
      rw [hchosen] at hstored
      cases hstored
      rw [← hlower]
      have hafter := getUserByMail_of_saved
        (normalized_registered (Person.normalized_of_ofJson hread) id) hrecord user.email
      exact ⟨by rw [hpassword, if_pos rfl], _, hafter.trans (if_pos rfl), rfl⟩

/-- A user who registered can log in, as long as nobody tries to delete the user and the password
stays, with the mail and the password of the registration iff that mail was in lower case. -/
theorem login_of_registered {earlier later : List Event} {start registered : DB}
    (hearlier : Run (Happens clock) ∅ earlier start) {juser : Json} {forceID id : Long}
    {mail chosen : Text} (hmail : juser.stringMember "email" = .ok mail)
    (hchosen : juser.stringMember "password" = .ok chosen)
    (hsave : savePerson start juser forceID = (.ok id, registered))
    (hlater : Run (Guarded (Happens clock) fun db event =>
      Spared (lower mail) db event ∧ Unchanged (lower mail) chosen db event) registered later db)
    (now : Int) (token : Text) :
    (∃ next, login clock db now token mail chosen = (.ok token, next) ∧
      getUserId next token = .ok id) ↔ lower mail = mail := by
  have hstart := consistent_of_happens ⟨Consistent.empty, lowerMails_empty⟩ hearlier
  have hregister : Happens clock start (.users (.savePerson juser forceID)) registered := by
    show (savePerson start juser forceID).2 = registered
    rw [hsave]
  have hregistered := consistent_of_happens hstart (Run.nil.snoc hregister)
  have henrolled :=
    (enrolled_of_savePerson hstart.1 hmail hchosen hsave).of_run hregistered.1 hlater
  constructor
  · rintro ⟨next, hlogin, -⟩
    by_contra hraw
    obtain ⟨-, hlowerMails⟩ := consistent_of_happens hregistered hlater.of_guarded
    have hmissing : db.existsKey (key .userPassword mail) = none := by
      refine Option.not_isSome_iff_eq_none.mp fun hsome => ?_
      exact hraw (hlowerMails mail hsome)
    rw [login, hmissing] at hlogin
    cases hlogin
  · intro hlower
    rw [hlower] at henrolled
    exact henrolled.login now token

/-- The request of a registration with a mail and a password. -/
def registration (mail chosen : Text) : Json :=
  ({ Person.sample mail [] [] with password := chosen } : Person).serializeMe

/-- The mail of the registration is not found, since it was not in lower case. -/
theorem login_of_upperCase :
    (savePerson ∅ (registration ['A'] ['p']) (-1)).1 = .ok 1 ∧
      (login stoppedClock (savePerson ∅ (registration ['A'] ['p']) (-1)).2 0 ['t'] ['A'] ['p']).1
        = .error (.userNotFoundMail ['A']) := by
  constructor
  · decide
  · decide

/-- The deletion of a user with another mail spares the user of a mail. -/
theorem spared_deletePerson {mail other : Text} {id : Long}
    (hread : (getUserById db id).map Person.email = .ok other) (hne : other ≠ mail) :
    Spared mail db (.users (.deletePerson id)) := by
  rintro call ⟨⟩ user huser rfl
  rw [huser] at hread
  exact hne (Except.ok.inj hread).symm

/-- A deletion gives nobody another password. -/
theorem unchanged_deletePerson (mail chosen : Text) (db : DB) (id : Long) :
    Unchanged mail chosen db (.users (.deletePerson id)) := by
  rintro call ⟨⟩
  trivial

/-- One user is registered. -/
def firstRegistered : DB :=
  (savePerson ∅ (registration ['b'] ['q']) (-1)).2

/-- A second user registers. -/
def bothRegistered : DB :=
  (savePerson firstRegistered (registration ['a'] ['p']) (-1)).2

/-- A user who registered with a mail in lower case logs in after another one was deleted. -/
theorem login_of_registered_lowerCase :
    ∃ next, login stoppedClock (deletePerson bothRegistered 1).2 0 ['t'] ['a'] ['p']
        = (.ok ['t'], next) ∧ getUserId next ['t'] = .ok 2 := by
  have hearlier : Run (Happens stoppedClock) ∅
      [.users (.savePerson (registration ['b'] ['q']) (-1))] firstRegistered := Run.nil.snoc rfl
  have hsave : savePerson firstRegistered (registration ['a'] ['p']) (-1)
      = (.ok 2, bothRegistered) := Prod.ext (by decide) rfl
  have hlater : Run (Guarded (Happens stoppedClock) fun db event =>
      Spared (lower ['a']) db event ∧ Unchanged (lower ['a']) ['p'] db event) bothRegistered
      [.users (.deletePerson 1)] (deletePerson bothRegistered 1).2 :=
    Run.nil.snoc ⟨rfl, @spared_deletePerson _ _ ['b'] 1 (by decide) (by decide),
      unchanged_deletePerson _ _ _ 1⟩
  exact (login_of_registered hearlier (by decide) (by decide) hsave hlater 0 ['t']).mpr
    (by decide)

/-! ## The password that was chosen last -/

/-- The call gives the account of a mail a password that is not its old one. -/
def Chooses (mail chosen : Text) (db : DB) : Call → Prop
  | .savePerson juser forceID => ∃ user id, Person.ofJson juser = .ok user ∧ user.email = mail ∧
    user.password = chosen ∧ (exec db (.savePerson juser forceID)).1 = .ok id
  | .updateUser juser => ∃ newUser oldUser id, Person.ofJson juser = .ok newUser ∧
    getUserById db newUser.id = .ok oldUser ∧ oldUser.email = mail ∧ newUser.password = chosen ∧
    chosen ≠ [] ∧ oldUser.password ≠ chosen ∧ (exec db (.updateUser juser)).1 = .ok id
  | _ => False

/-- The call deletes the account of a mail. -/
def Closes (mail : Text) (db : DB) : Call → Prop
  | .deletePerson id => ∃ user, getUserById db id = .ok user ∧ user.email = mail ∧
    (exec db (.deletePerson id)).1 = .ok none
  | _ => False

/-- The password of the account of a mail is replaced, or the account is closed. -/
def Replaces (mail : Text) (db : DB) (call : Call) : Prop :=
  (∃ chosen, Chooses mail chosen db call) ∨ Closes mail db call

/-- The event is a request of the owner of an account, not a sign-in with Facebook. -/
def Event.ByOwner : Event → Prop
  | facebook _ _ => False
  | _ => True

/-- In a run, the owner of the account of a mail chose a password that was not replaced since. -/
def ChosenLast (clock : Clock) (events : List Event) (mail chosen : Text) (db : DB) : Prop :=
  ∃ (before : List Event) (event : Event) (after : List Event) (moment following : DB),
    events = before ++ event :: after ∧ Run (Happens clock) ∅ before moment ∧
    Happens clock moment event following ∧ event.ByOwner ∧
    (∃ call, event.Makes moment call ∧ Chooses mail chosen moment call) ∧
    Run (Guarded (Happens clock) fun db event =>
      ∀ call, event.Makes db call → ¬ Replaces mail db call) following after db

/-- The passwords that are not empty are the ones that were chosen last. -/
def PasswordsChosen (clock : Clock) (events : List Event) (db : DB) : Prop :=
  ∀ mail entry, db.existsKey (key .userPassword mail) = some entry →
    ∃ chosen, entry = .text chosen ∧ (chosen ≠ [] → ChosenLast clock events mail chosen db)

/-- What was chosen last stays so until it is replaced. -/
theorem ChosenLast.snoc {events : List Event} {mail chosen : Text}
    (h : ChosenLast clock events mail chosen db) {event : Event}
    (hstep : Happens clock db event next)
    (hkeeps : ∀ call, event.Makes db call → ¬ Replaces mail db call) :
    ChosenLast clock (events ++ [event]) mail chosen next := by
  obtain ⟨before, first, after, moment, following, rfl, hbefore, hfirst, howner, hchooses,
      hafter⟩ :=
    h
  refine ⟨before, first, after ++ [event], moment, following, ?_, hbefore, hfirst, howner,
    hchooses,
    hafter.snoc ⟨hstep, hkeeps⟩⟩
  rw [List.append_assoc, List.cons_append]

/-- Only calls on accounts that succeed replace a password. -/
theorem Replaces.onAccount {mail : Text} {call : Call} (h : Replaces mail db call) :
    call.OnAccount ∧ ∃ id, (exec db call).1 = .ok id := by
  rcases h with ⟨chosen, hchooses⟩ | hcloses
  · cases call with
    | savePerson juser forceID =>
        obtain ⟨_, id, -, -, -, hreturned⟩ := hchooses
        exact ⟨trivial, id, hreturned⟩
    | updateUser juser =>
        obtain ⟨_, _, id, -, -, -, -, -, -, hreturned⟩ := hchooses
        exact ⟨trivial, id, hreturned⟩
    | _ => exact absurd hchooses id
  · cases call with
    | deletePerson id =>
        obtain ⟨_, -, -, hreturned⟩ := hcloses
        exact ⟨trivial, _, hreturned⟩
    | _ => exact absurd hcloses id

/-- An update writes the password that it chose, or leaves the password alone. -/
theorem password_of_updated {juser : Json} {newUser oldUser : Person} {returned : Option Long}
    (hresult : (exec db (.updateUser juser)).1 = .ok returned)
    (hread : Person.ofJson juser = .ok newUser) (hold : getUserById db newUser.id = .ok oldUser)
    (hwritten : ∀ mail, next.existsKey (key .userPassword mail)
      = if oldUser.email = mail ∧ newUser.password ≠ [] ∧
          oldUser.password ≠ newUser.password then some (.text newUser.password)
        else db.existsKey (key .userPassword mail)) (mail : Text) :
    (next.existsKey (key .userPassword mail) = db.existsKey (key .userPassword mail) ∧
        ¬ Replaces mail db (.updateUser juser)) ∨
      ∃ chosen, next.existsKey (key .userPassword mail) = some (.text chosen) ∧
        Chooses mail chosen db (.updateUser juser) := by
  by_cases hchanged : oldUser.email = mail ∧ newUser.password ≠ [] ∧
      oldUser.password ≠ newUser.password
  · obtain ⟨hmail, hne, hdiffer⟩ := hchanged
    refine .inr ⟨newUser.password, ?_, newUser, oldUser, returned, hread, hold, hmail, rfl, hne,
      hdiffer, hresult⟩
    rw [hwritten, if_pos ⟨hmail, hne, hdiffer⟩]
  · refine .inl ⟨by rw [hwritten, if_neg hchanged], ?_⟩
    rintro (⟨chosen, profile, old, _, hprofile, hfound, hmail, rfl, hne, hdiffer, -⟩ | hcloses)
    · rw [hread] at hprofile
      cases hprofile
      rw [hold] at hfound
      cases hfound
      exact hchanged ⟨hmail, hne, hdiffer⟩
    · exact hcloses

/-- A call leaves the password of a mail alone and does not replace it, or takes it out, or writes
one that the call chose. -/
theorem password_cases {call : Call} {result : Outcome} (hresult : (exec db call).1 = result)
    (heffect : Effect db call result next) (mail : Text) :
    (next.existsKey (key .userPassword mail) = db.existsKey (key .userPassword mail) ∧
        ¬ Replaces mail db call) ∨
      next.existsKey (key .userPassword mail) = none ∨
      ∃ chosen, next.existsKey (key .userPassword mail) = some (.text chosen) ∧
        Chooses mail chosen db call := by
  cases heffect with
  | kept hthrown hsame =>
      -- a call on an account that changes nothing has thrown
      refine .inl ⟨hsame _ _ (.inr (.inr rfl)), fun hreplaces => ?_⟩
      obtain ⟨hon, id, hreturned⟩ := hreplaces.onAccount
      obtain ⟨e, he⟩ := hthrown hon
      rw [hresult, he] at hreturned
      cases hreturned
  | @registered juser forceID id user counted _ hread _ _ _ _ hpassword =>
      by_cases hmail : user.email = mail
      · refine .inr (.inr ⟨user.password, ?_, user, some id, hread, hmail, rfl, hresult⟩)
        rw [hpassword, if_pos hmail]
      · refine .inl ⟨by rw [hpassword, if_neg hmail], ?_⟩
        rintro (⟨chosen, other, _, hother, hsame, -⟩ | hcloses)
        · rw [hread] at hother
          cases hother
          exact hmail hsame
        · exact hcloses
  | updated hread hold _ _ hpassword =>
      exact (password_of_updated hresult hread hold hpassword mail).imp_right .inr
  | recommended hcall _ _ hsame =>
      exact .inl ⟨hsame _ _ (.inr rfl), fun hreplaces => hcall hreplaces.onAccount.1⟩
  | @deleted id user _ hread _ _ hpassword =>
      by_cases hmail : user.email = mail
      · exact .inr (.inl (by rw [hpassword, if_pos hmail]))
      · refine .inl ⟨by rw [hpassword, if_neg hmail], ?_⟩
        rintro (⟨chosen, hchooses⟩ | ⟨other, hother, hsame, -⟩)
        · exact hchooses
        · rw [hread] at hother
          cases hother
          exact hmail hsame
  | @halfDeleted id user e _ hread _ _ hpassword =>
      -- the password is gone although the call threw
      by_cases hmail : user.email = mail
      · exact .inr (.inl (by rw [hpassword, if_pos hmail]))
      · refine .inl ⟨by rw [hpassword, if_neg hmail], fun hreplaces => ?_⟩
        obtain ⟨-, _, hreturned⟩ := hreplaces.onAccount
        rw [hresult] at hreturned
        cases hreturned

/-- The password that an event other than a request of an owner chooses is empty. -/
theorem byOwner_of_chooses {event : Event} {call : Call} {mail chosen : Text}
    (hmakes : event.Makes db call) (hchooses : Chooses mail chosen db call) (hne : chosen ≠ []) :
    event.ByOwner := by
  cases hmakes with
  | users => trivial
  | session => trivial
  | @facebook env httpMessage created hcreated =>
      obtain ⟨user, _, hread, -, rfl, -⟩ := hchooses
      have hwritten : created.serializeMe.stringMember "password" = .ok created.password := by
        simp [Json.stringMember, Person.serializeMe, Json.assigned, Json.assigned_append,
          Json.assigned_appendedMember]
      rw [(Person.login_of_ofJson hread).2, password_of_facebookPerson hcreated] at hwritten
      exact absurd (Except.ok.inj hwritten) hne

/-- Along every run the passwords that are not empty were chosen. -/
theorem passwordsChosen_of_run {events : List Event} (h : Run (Happens clock) ∅ events db) :
    PasswordsChosen clock events db := by
  induction h with
  | nil =>
      intro mail entry hentry
      rw [DB.existsKey_empty] at hentry
      cases hentry
  | @snoc events state next event hbefore hlast ih =>
      have hdb := (consistent_of_happens ⟨Consistent.empty, lowerMails_empty⟩ hbefore).1
      intro mail entry hentry
      have hkept (hsame : next.existsKey (key .userPassword mail)
            = state.existsKey (key .userPassword mail))
          (hkeeps : ∀ call, event.Makes state call → ¬ Replaces mail state call) :
          ∃ chosen, entry = .text chosen ∧
            (chosen ≠ [] → ChosenLast clock (events ++ [event]) mail chosen next) := by
        rw [hsame] at hentry
        obtain ⟨chosen, htext, hlastChosen⟩ := ih mail entry hentry
        exact ⟨chosen, htext, fun hne => (hlastChosen hne).snoc hlast hkeeps⟩
      rcases hlast.effect hdb with ⟨hnone, htokens⟩ | ⟨call, result, hmakes, hresult, heffect⟩
      · exact hkept (htokens.ofUser (.inr (.inr rfl)) mail) fun call hmakes =>
          absurd hmakes (hnone call)
      · rcases password_cases hresult heffect mail with
          ⟨hsame, hkeeps⟩ | hgone | ⟨chosen, hwritten, hchooses⟩
        · refine hkept hsame fun other hother => ?_
          rwa [hmakes.unique hother]
        · rw [hgone] at hentry
          cases hentry
        · rw [hwritten] at hentry
          cases hentry
          refine ⟨chosen, rfl, fun hne => ⟨events, event, [], state, next, rfl, hbefore, hlast,
            byOwner_of_chooses hmakes hchooses hne, ⟨call, hmakes, hchooses⟩, .nil⟩⟩

/-- A login that succeeds was made with a password that the owner of the account chose, and that
was not replaced since, iff the password is not empty. -/
theorem login_sound {events : List Event} (h : Run (Happens clock) ∅ events db) {now : Int}
    {token issued mail chosen : Text}
    (hlogin : (login clock db now token mail chosen).1 = .ok issued) :
    (chosen ≠ [] ∧ ChosenLast clock events mail chosen db) ↔ chosen ≠ [] := by
  refine ⟨And.left, fun hne => ⟨hne, ?_⟩⟩
  rw [login] at hlogin
  split at hlogin
  · cases hlogin
  · rename_i entry hentry
    obtain ⟨stored, rfl, hchosen⟩ := passwordsChosen_of_run h mail entry hentry
    split at hlogin
    · cases hlogin
    · rename_i hsame
      have hsame : stored = chosen := not_not.mp hsame
      rw [hsame] at hchosen
      exact hchosen hne

/-- The body of a sign-in with Facebook. -/
def facebookBody : Text :=
  "\x7b\"token\":\"t\"\x7d".toList

/-- The profile that Facebook answers with. -/
def facebookProfile (mail : Text) : Text :=
  "\x7b\"email\":\"".toList ++ mail ++ "\"\x7d".toList

/-- A server whose Facebook knows one mail. -/
def facebookServer (mail : Text) : Environment :=
  { Environment.quiet with
    newToken := ['t']
    config := fun _ => some []
    popen := fun _ => some ("HTTP/1.1 200 OK\r\n\r\n".toList ++ facebookProfile mail) }

/-- A sign-in with Facebook. -/
def signsIn : HttpMessage where
  method := "POST".toList
  uri := "/api/facebooklogin".toList
  queryString := []
  authorization := none
  body := facebookBody
  bodyLen := 13

/-- The account that Facebook created is entered with the empty password, which nobody chose. -/
theorem login_of_emptyPassword :
    ∃ events db, Run (Happens stoppedClock) ∅ events db ∧
      (login stoppedClock db 0 ['t'] ['a'] []).1 = .ok ['t'] ∧
      ∀ chosen, ¬ ChosenLast stoppedClock events ['a'] chosen db := by
  refine ⟨[.facebook (facebookServer ['a']) signsIn], _, Run.nil.snoc rfl, ?_, ?_⟩
  · decide +kernel
  · rintro chosen ⟨before, event, after, moment, following, hevents, -, -, howner, -⟩
    have hmem : event ∈ [Event.facebook (facebookServer ['a']) signsIn] := by
      rw [hevents]
      exact List.mem_append_right _ List.mem_cons_self
    rw [List.mem_singleton.mp hmem] at howner
    exact howner

/-- The password of a registration was chosen. -/
theorem login_sound_registration :
    ChosenLast stoppedClock [.users (.savePerson (registration ['a'] ['p']) (-1))] ['a'] ['p']
      (savePerson ∅ (registration ['a'] ['p']) (-1)).2 := by
  have hrun : Run (Happens stoppedClock) ∅ [.users (.savePerson (registration ['a'] ['p']) (-1))]
      (savePerson ∅ (registration ['a'] ['p']) (-1)).2 := Run.nil.snoc rfl
  have hlogin : (login stoppedClock (savePerson ∅ (registration ['a'] ['p']) (-1)).2 0 ['t'] ['a']
      ['p']).1 = .ok ['t'] := by decide
  exact ((login_sound hrun hlogin).mpr (by decide)).2

end TallerII
