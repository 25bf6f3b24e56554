import TallerII.Identity
import TallerII.Logins

/-!
# Signing in with Facebook again

The account of a person whom Facebook describes is looked for under the mail as it is, and created
under the mail in lower case. `facebookPost_repeatable` says when a sign-in succeeds, and that it
then leads to the same account every time until the account is deleted.
-/

namespace TallerII

open Manager PersonManager SessionManager LoginWithFacebookHandler Lib

variable {clock : Clock} {db next : DB} {env : Environment} {httpMessage : HttpMessage}

/-- The response to a sign-in that succeeds. -/
def signedIn (userToken : Text) (userId : Long) : Response :=
  (({} : Response).setBody (LoginHandler.tokenBody userToken userId)).setSuccessfulHeader

/-- What goes wrong is never answered as a success. -/
theorem rejected_ne_signedIn (e : Exn) (userToken : Text) (userId : Long) :
    rejected e ≠ .ok (signedIn userToken userId) := by
  intro hsame
  have hheader : ∀ details, Handler.badRequest details ≠ signedIn userToken userId := by
    intro details heq
    have hfield := congrArg Response.header heq
    revert hfield
    show "400 Bad Request".toList = "200 OK".toList → False
    decide
  cases e with
  | invalidRequest details => exact hheader details (Except.ok.inj hsame)
  | errorLoginWithFacebook details => exact hheader details (Except.ok.inj hsame)
  | _ => cases hsame

/-! ## The login -/

/-- Who is enrolled gets in. -/
theorem facebookAnswer_of_enrolled {mail chosen : Text} {id : Long}
    (h : Enrolled mail chosen id db) (env : Environment) (userId : Long) :
    (facebookAnswer env db mail userId).1 = .ok (signedIn env.newToken userId) := by
  obtain ⟨user, hread, -⟩ := h.record
  have hlogin : facebookLogin env.clock db env.loginTime env.newToken mail
      = (.ok env.newToken,
        putToken env.clock db env.loginTime env.newToken mail user.id) := by
    rw [facebookLogin, h.password]
    simp [saveToken, hread]
  rw [facebookAnswer, hlogin]
  rfl

/-- Without a password under the mail nobody is found. -/
theorem facebookAnswer_of_missing {mail : Text}
    (h : db.existsKey (key .userPassword mail) = none) (env : Environment) (userId : Long) :
    facebookAnswer env db mail userId = (rejected (.userNotFoundMail mail), db) := by
  rw [facebookAnswer, facebookLogin, h]

/-! ## The registration -/

/-- The counter can be counted up. -/
def HasId (db : DB) : Prop :=
  db.existsKey lastID ≠ some (.text (toString Int64.maxValue))

/-- With a counter that can be counted up there is a next id. -/
theorem generateID_of_hasId (hdb : Consistent db) (h : HasId db) :
    ∃ id next, generateID db = (.ok id, next) := by
  unfold generateID
  split
  · exact ⟨_, _, rfl⟩
  · rename_i entry hentry
    obtain ⟨last, rfl⟩ := hdb.counter entry hentry
    rw [Entry.asText, stol_toString]
    have hlast : last ≠ Int64.maxValue := by
      rintro rfl
      exact h hentry
    simp only [if_neg hlast]
    exact ⟨_, _, rfl⟩

/-- Without one there is none. -/
theorem generateID_of_not_hasId (h : ¬ HasId db) :
    generateID db = (.error .undefinedBehaviour, db) := by
  have hentry : db.existsKey lastID = some (.text (toString Int64.maxValue)) := not_not.mp h
  rw [generateID, hentry]
  simp [Entry.asText]

/-- What Facebook says of a person, when it is read back. -/
theorem ofJson_of_facebookPerson {created : Person}
    (h : facebookPerson env httpMessage = .ok created) :
    ∃ user, Person.ofJson created.serializeMe = .ok user ∧ user.email = lower created.email ∧
      user.password = [] := by
  simp only [facebookPerson, createPerson, bind_eq_ok] at h
  obtain ⟨_, -, _, -, firstName, -, lastName, -, birthday, -, email, -, hcreated⟩ := h
  cases hcreated
  refine ⟨{ id := 0, totRecommendations := 0, firstName := lower firstName
            lastName := lower lastName, email := lower email, password := []
            dateOfBirth := birthday, city := [], summary := []
            location := { latitude := 0, longitude := 0 }, workHistory := [], skills := [] },
    ?_, rfl, rfl⟩
  simp [Person.ofJson, Person.serializeMe, Json.stringMember, Json.assigned_append,
    Json.assigned_appendedMember, Json.assigned, Json.elements]

/-- Registering the person fails when there is no id left, or the mail in lower case is taken. -/
theorem savePerson_of_facebookPerson {created : Person}
    (h : facebookPerson env httpMessage = .ok created) (hdb : Consistent db)
    (hfree : userExistsMail db (lower created.email) = false) (hid : HasId db) :
    ∃ id next, savePerson db created.serializeMe (-1) = (.ok id, next) := by
  obtain ⟨user, hread, hmail, -⟩ := ofJson_of_facebookPerson h
  obtain ⟨id, counted, hgenerated⟩ := generateID_of_hasId hdb hid
  refine ⟨id, insertPerson counted { user with id, totRecommendations := 0 }, ?_⟩
  rw [savePerson, hread]
  simp only [hmail, hfree, hgenerated]
  rfl

/-- Then nobody can be registered. -/
theorem savePerson_of_not_hasId {created : Person}
    (h : facebookPerson env httpMessage = .ok created)
    (hfree : userExistsMail db (lower created.email) = false) (hid : ¬ HasId db) :
    savePerson db created.serializeMe (-1) = (.error .undefinedBehaviour, db) := by
  obtain ⟨user, hread, hmail, -⟩ := ofJson_of_facebookPerson h
  rw [savePerson, hread]
  simp only [hmail, hfree, generateID_of_not_hasId hid]
  rfl

/-- The account of the person after the registration. -/
theorem enrolled_of_facebookPerson {created : Person}
    (h : facebookPerson env httpMessage = .ok created) (hdb : Consistent db) {id : Long}
    (hsave : savePerson db created.serializeMe (-1) = (.ok id, next)) :
    Enrolled (lower created.email) [] id next := by
  refine enrolled_of_savePerson hdb ?_ ?_ hsave
  · simp [Json.stringMember, Person.serializeMe, Json.assigned, Json.assigned_append,
      Json.assigned_appendedMember]
  · simp [Json.stringMember, Person.serializeMe, Json.assigned, Json.assigned_append,
      Json.assigned_appendedMember, password_of_facebookPerson h]

/-! ## Signing in -/

/-- A sign-in with the mail can succeed: the mail is in lower case; its account, if there is one,
has a password; and if there is none there is an id for it. -/
structure CanSignIn (mail : Text) (db : DB) : Prop where
  lower : lower mail = mail
  password : userExistsMail db mail → (db.existsKey (key .userPassword mail)).isSome
  counter : userExistsMail db mail = false → HasId db

/-- A person who is enrolled signs in, and stays enrolled. -/
theorem facebookPost_of_enrolled {created : Person}
    (h : facebookPerson env httpMessage = .ok created) (hdb : Consistent db) {chosen : Text}
    {id : Long} (henrolled : Enrolled created.email chosen id db) :
    (facebookPost env db httpMessage).1 = .ok (signedIn env.newToken id) ∧
      Enrolled created.email chosen id (facebookPost env db httpMessage).2 := by
  obtain ⟨user, hread, hid⟩ := henrolled.record
  obtain ⟨hentry, hmail, -⟩ := hdb.getUserByMail_eq_ok.mp hread
  have hthere : userExistsMail db created.email = true := by
    rw [userExistsMail, hentry]
    rfl
  rw [facebookPost_of_there h hthere, hread]
  simp only [hmail, hid]
  have htokens := onlyTokens_facebookAnswer env db created.email id
  refine ⟨facebookAnswer_of_enrolled henrolled env id, henrolled.congr ?_ ?_⟩
  · exact htokens.ofUser (.inr (.inr rfl)) _
  · exact htokens.getUserByMail _

/-- A person who can sign in does, and is enrolled. -/
theorem facebookPost_of_canSignIn {created : Person}
    (h : facebookPerson env httpMessage = .ok created) {earlier : List Event}
    (hearlier : Run (Happens clock) ∅ earlier db) (hcan : CanSignIn created.email db) :
    ∃ id chosen, (facebookPost env db httpMessage).1 = .ok (signedIn env.newToken id) ∧
      Enrolled created.email chosen id (facebookPost env db httpMessage).2 := by
  have hdb := (consistent_of_happens ⟨Consistent.empty, lowerMails_empty⟩ hearlier).1
  cases hthere : userExistsMail db created.email with
  | true =>
      obtain ⟨stored, hread⟩ := hdb.getUserByMail_of_existsKey hthere
      obtain ⟨entry, hentry⟩ := Option.isSome_iff_exists.mp (hcan.password hthere)
      obtain ⟨chosen, rfl, -⟩ := passwordsChosen_of_run hearlier _ entry hentry
      exact ⟨stored.id, chosen, facebookPost_of_enrolled h hdb ⟨hentry, stored, hread, rfl⟩⟩
  | false =>
      have hfree : userExistsMail db (lower created.email) = false := by rw [hcan.lower, hthere]
      obtain ⟨id, next, hsave⟩ := savePerson_of_facebookPerson h hdb hfree (hcan.counter hthere)
      have henrolled := enrolled_of_facebookPerson h hdb hsave
      rw [hcan.lower] at henrolled
      rw [facebookPost_of_free h hthere, hsave]
      have htokens := onlyTokens_facebookAnswer env next created.email id
      refine ⟨id, [], facebookAnswer_of_enrolled henrolled env id, henrolled.congr ?_ ?_⟩
      · exact htokens.ofUser (.inr (.inr rfl)) _
      · exact htokens.getUserByMail _

/-- Only a person who can sign in does. -/
theorem canSignIn_of_signedIn {created : Person}
    (h : facebookPerson env httpMessage = .ok created)
    (hdb : Consistent db) (hlower : LowerMails db) {userToken : Text} {id : Long}
    (hsigned : (facebookPost env db httpMessage).1 = .ok (signedIn userToken id)) :
    CanSignIn created.email db := by
  -- a mail that is not in lower case is registered under another one, where nobody finds it
  have hmail : lower created.email = created.email := by
    by_contra hraw
    have hthere : userExistsMail db created.email = false := by
      rw [userExistsMail]
      cases hentry : db.existsKey (key .userMail created.email) with
      | none => rfl
      | some entry =>
          obtain ⟨user, -, hsame, hnormalized⟩ := hdb.record _ _ hentry
          exact absurd (hsame ▸ hnormalized.email) hraw
    rw [facebookPost_of_free h hthere] at hsigned
    split at hsigned
    · exact rejected_ne_signedIn _ _ _ hsigned
    · rename_i userId next hsave
      have hnext : LowerMails next := by
        have heffect := effect_exec hdb (.savePerson created.serializeMe (-1))
        rw [exec, hsave] at heffect
        exact hlower.effect hdb heffect
      have hmissing : next.existsKey (key .userPassword created.email) = none := by
        refine Option.not_isSome_iff_eq_none.mp fun hsome => hraw (hnext _ hsome)
      rw [facebookAnswer_of_missing hmissing] at hsigned
      exact rejected_ne_signedIn (.userNotFoundMail created.email) userToken id hsigned
  refine ⟨hmail, ?_, ?_⟩
  · intro hthere
    by_contra hnone
    obtain ⟨stored, hread⟩ := hdb.getUserByMail_of_existsKey hthere
    rw [facebookPost_of_there h hthere, hread] at hsigned
    simp only [(hdb.getUserByMail_eq_ok.mp hread).2.1] at hsigned
    rw [facebookAnswer_of_missing (Option.not_isSome_iff_eq_none.mp hnone)] at hsigned
    exact rejected_ne_signedIn (.userNotFoundMail created.email) userToken id hsigned
  · intro hthere
    by_contra hnoId
    have hfree : userExistsMail db (lower created.email) = false := by rw [hmail, hthere]
    rw [facebookPost_of_free h hthere, savePerson_of_not_hasId h hfree hnoId] at hsigned
    exact rejected_ne_signedIn .undefinedBehaviour userToken id hsigned

/-- A sign-in writes no record but the one of the mail in lower case. -/
theorem record_facebookPost {created : Person} (h : facebookPerson env httpMessage = .ok created)
    (hdb : Consistent db) {mail : Text} (hother : mail ≠ lower created.email) :
    (facebookPost env db httpMessage).2.existsKey (key .userMail mail)
      = db.existsKey (key .userMail mail) := by
  have hstep : Happens env.clock db (.facebook env httpMessage)
      (facebookPost env db httpMessage).2 :=
    rfl
  rcases hstep.effect hdb with ⟨-, htokens⟩ | ⟨call, result, hmakes, -, heffect⟩
  · exact htokens.ofUser (.inl rfl) mail
  · cases hmakes with
    | facebook hcreated =>
        rw [h] at hcreated
        cases hcreated
        cases heffect with
        | kept _ hsame => exact hsame _ _ (.inl rfl)
        | recommended hcall => exact absurd trivial hcall
        | registered hread _ _ hrecord =>
            obtain ⟨user, huser, hmail, -⟩ := ofJson_of_facebookPerson h
            rw [huser] at hread
            cases hread
            rw [hrecord, if_neg (hmail ▸ hother.symm)]

/-- A sign-in with Facebook succeeds, creates at most the account of its mail, and leads to the
same user again in every run that does not delete the user, iff the person can sign in. -/
theorem facebookPost_repeatable {earlier : List Event}
    (hearlier : Run (Happens clock) ∅ earlier db)
    {created : Person} (hperson : facebookPerson env httpMessage = .ok created) :
    (∃ id, (facebookPost env db httpMessage).1 = .ok (signedIn env.newToken id) ∧
      (∀ mail, mail ≠ lower created.email →
        (facebookPost env db httpMessage).2.existsKey (key .userMail mail)
          = db.existsKey (key .userMail mail)) ∧
      ∀ later following, Run (Guarded (Happens clock) (Spared created.email))
          (facebookPost env db httpMessage).2 later following →
        ∀ again request, facebookPerson again request = .ok created →
          (facebookPost again following request).1 = .ok (signedIn again.newToken id)) ↔
      CanSignIn created.email db := by
  obtain ⟨hdb, hlower⟩ := consistent_of_happens ⟨Consistent.empty, lowerMails_empty⟩ hearlier
  constructor
  · rintro ⟨id, hsigned, -⟩
    exact canSignIn_of_signedIn hperson hdb hlower hsigned
  · intro hcan
    obtain ⟨id, chosen, hsigned, henrolled⟩ := facebookPost_of_canSignIn hperson hearlier hcan
    refine ⟨id, hsigned, fun mail hother => record_facebookPost hperson hdb hother, ?_⟩
    intro later following hlater again request hagain
    have hstep : Happens clock db (.facebook env httpMessage)
        (facebookPost env db httpMessage).2 :=
      rfl
    obtain ⟨hfollowing, current, hstill⟩ := henrolled.of_spared (hstep.consistent hdb) hlater
    exact (facebookPost_of_enrolled hagain hfollowing hstill).1

/-- The account is created, but the login does not find the mail that is not in lower case. -/
theorem facebookPost_upperCase :
    (facebookPerson (facebookServer ['A']) signsIn).map Person.email = .ok ['A'] ∧
      (facebookPost (facebookServer ['A']) ∅ signsIn).1 = .error (.userNotFoundMail ['A']) ∧
      userExistsMail (facebookPost (facebookServer ['A']) ∅ signsIn).2 ['a'] ∧
      (facebookPost (facebookServer ['A']) (facebookPost (facebookServer ['A']) ∅ signsIn).2
        signsIn).1
        = .error .userAlreadyExists := by
  refine ⟨?_, ?_, ?_, ?_⟩
  · decide +kernel
  · decide +kernel
  · decide +kernel
  · decide +kernel

/-- After a sign-in somebody else registers and is deleted. -/
def strangerGone : DB :=
  (deletePerson (savePerson (facebookPost (facebookServer ['a']) ∅ signsIn).2
    (registration ['b'] ['q']) (-1)).2 2).2

/-- A person whose mail is in lower case signs in twice, as the same user. -/
theorem facebookPost_repeatable_twice :
    ∃ id, (facebookPost (facebookServer ['a']) ∅ signsIn).1 = .ok (signedIn ['t'] id) ∧
      (facebookPost (facebookServer ['a']) strangerGone signsIn).1 = .ok (signedIn ['t'] id) := by
  have hread : (facebookPerson (facebookServer ['a']) signsIn).map Person.email = .ok ['a'] := by
    decide +kernel
  obtain ⟨created, hperson, hmail⟩ : ∃ created,
      facebookPerson (facebookServer ['a']) signsIn = .ok created ∧ created.email = ['a'] := by
    rcases hresult : facebookPerson (facebookServer ['a']) signsIn with e | created
    · rw [hresult] at hread
      cases hread
    · rw [hresult] at hread
      exact ⟨created, rfl, Except.ok.inj hread⟩
  have hearlier : Run (Happens stoppedClock) ∅ [] ∅ := .nil
  obtain ⟨id, hsigned, -, hagain⟩ := (facebookPost_repeatable hearlier hperson).mpr (by
    rw [hmail]
    exact ⟨by decide, by decide, fun _ => by simp [HasId]⟩)
  have hlater : Run (Guarded (Happens stoppedClock) (Spared created.email))
      (facebookPost (facebookServer ['a']) ∅ signsIn).2
      [.users (.savePerson (registration ['b'] ['q']) (-1)), .users (.deletePerson 2)]
      strangerGone := by
    rw [hmail]
    have hspared (db : DB) :
        Spared ['a'] db (.users (.savePerson (registration ['b'] ['q']) (-1))) := by
      rintro call ⟨⟩
      trivial
    have hregister : Run (Guarded (Happens stoppedClock) (Spared ['a']))
        (facebookPost (facebookServer ['a']) ∅ signsIn).2
        [.users (.savePerson (registration ['b'] ['q']) (-1))]
        (savePerson (facebookPost (facebookServer ['a']) ∅ signsIn).2
          (registration ['b'] ['q']) (-1)).2 :=
      Run.nil.snoc ⟨rfl, hspared _⟩
    exact hregister.snoc ⟨rfl, @spared_deletePerson _ _ ['b'] 2 (by decide +kernel) (by decide)⟩
  exact ⟨id, hsigned, hagain _ _ hlater _ _ hperson⟩

end TallerII
