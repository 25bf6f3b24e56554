import TallerII.Access
import TallerII.Effects
import TallerII.Provenance

/-!
# Runs of the whole server

An event is a call of `PersonManager`, a call of `SessionManager`, or a sign-in with Facebook,
which is both. Session calls write the records of tokens and nothing else, so what an event did to
users is what at most one call of `PersonManager` did: `Event.effect`.
-/

namespace TallerII

open Manager PersonManager SessionManager Lib

variable {clock : Clock} {db middle next : DB}

/-- The answer of a sign-in with Facebook, and the store that it leaves. -/
def facebookPost (env : Environment) (db : DB) (httpMessage : HttpMessage) :
    Except Exn Response × DB :=
  let served := (LoginWithFacebookHandler.handlePostRequest env none httpMessage).serve
    { db, files := fun _ => none }
  (served.1, served.2.db)

/-- Something that happens to the server. -/
inductive Event where
  | users (call : Call)
  | session (call : SessionCall)
  | facebook (env : Environment) (httpMessage : HttpMessage)

/-- The store that an event leaves, also when it throws. -/
def Event.run (clock : Clock) (db : DB) : Event → DB
  | users call => (exec db call).2
  | session call => call.run clock db
  | facebook env httpMessage => (facebookPost env db httpMessage).2

/-- An event leads from one store to another. -/
def Happens (clock : Clock) (db : DB) (event : Event) (next : DB) : Prop :=
  event.run clock db = next

/-! ## Changes to tokens -/

/-- Nothing changed but the records of tokens. -/
def OnlyTokens (db next : DB) : Prop :=
  ∀ other, (∀ rest, other ≠ key .userToken rest) → next.existsKey other = db.existsKey other

/-- Nothing changed at all. -/
theorem OnlyTokens.refl (db : DB) : OnlyTokens db db :=
  fun _ _ => rfl

/-- A token is written with the record of its mail. -/
theorem onlyTokens_putToken (clock : Clock) (db : DB) (now : Int) (token userMail : Text)
    (userId : Long) : OnlyTokens db (putToken clock db now token userMail userId) := by
  intro other hother
  have hne : ∀ rest, key .userToken rest ≠ other := fun rest => (hother rest).symm
  simp [putToken, hne]

/-- What is not a token is as it was. -/
theorem OnlyTokens.other {family : Prefix} (h : OnlyTokens db next)
    (hfamily : family ≠ .userToken)
    (rest : Text) : next.existsKey (key family rest) = db.existsKey (key family rest) :=
  h _ fun other => by simp [hfamily]

/-- The counter is as it was. -/
theorem OnlyTokens.counter (h : OnlyTokens db next) :
    next.existsKey lastID = db.existsKey lastID :=
  h _ fun other => by simp

/-- What is kept of a user is as it was. -/
theorem OnlyTokens.ofUser {family : Prefix} (h : OnlyTokens db next)
    (hfamily : Prefix.OfUser family)
    (rest : Text) : next.existsKey (key family rest) = db.existsKey (key family rest) := by
  refine h.other ?_ rest
  rcases hfamily with rfl | rfl | rfl <;> decide

/-- The users are read as before. -/
theorem OnlyTokens.getUserByMail (h : OnlyTokens db next) (mail : Text) :
    getUserByMail next mail = getUserByMail db mail :=
  getUserByMail_congr (h.other (by decide) mail)

/-- Changes of tokens keep a store consistent. -/
theorem OnlyTokens.consistent (h : OnlyTokens db next) (hdb : Consistent db) :
    Consistent next := by
  refine hdb.congr ?_ h.counter
  intro family rest hfamily
  refine h.other ?_ rest
  rcases hfamily with rfl | rfl | rfl <;> decide

/-- A call of `SessionManager` changes only tokens. -/
theorem onlyTokens_session (clock : Clock) (db : DB) {call : SessionCall}
    (hcall : ∀ juser forceID, call ≠ .savePerson juser forceID) :
    OnlyTokens db (call.run clock db) := by
  cases call with
  | savePerson juser forceID => exact absurd rfl (hcall juser forceID)
  | login now token userMail userPassword =>
      rcases login_cases clock db now token userMail userPassword with
        ⟨e, hlogin⟩ | ⟨user, -, hlogin⟩
      · rw [SessionCall.run, hlogin]
        exact .refl db
      · rw [SessionCall.run, hlogin]
        exact onlyTokens_putToken _ _ _ _ _ _
  | facebookLogin now token userMail =>
      rcases facebookLogin_cases clock db now token userMail with
        ⟨e, hlogin⟩ | ⟨user, -, hlogin⟩
      · rw [SessionCall.run, hlogin]
        exact .refl db
      · rw [SessionCall.run, hlogin]
        exact onlyTokens_putToken _ _ _ _ _ _
  | saveToken now token userMail =>
      rcases saveToken_cases clock db now token userMail with ⟨e, hsave⟩ | ⟨user, -, hsave⟩
      · rw [SessionCall.run, hsave]
        exact .refl db
      · rw [SessionCall.run, hsave]
        exact onlyTokens_putToken _ _ _ _ _ _
  | getSession now token =>
      rcases getSession_cases clock db now token with
        ⟨e, -, hthrown⟩ | ⟨session, -, -, -, -, -, hsession⟩
      · rw [SessionCall.run, hthrown]
        exact .refl db
      · rw [SessionCall.run, hsession]
        exact onlyTokens_putToken _ _ _ _ _ _

/-! ## Signing in with Facebook -/

section Facebook

open LoginWithFacebookHandler

variable {env : Environment} {httpMessage : HttpMessage}

/-- The person that Facebook describes. -/
def facebookPerson (env : Environment) (httpMessage : HttpMessage) : Except Exn Person := do
  let parsedBody ← Handler.parseBody env (Handler.requestBody httpMessage)
  let data ← getUserDataFromFacebook env parsedBody
  createPerson data

/-- What follows once the person is found or created. -/
def facebookAnswer (env : Environment) (db : DB) (userMail : Text) (userId : Long) :
    Except Exn Response × DB :=
  match facebookLogin env.clock db env.loginTime env.newToken userMail with
  | (.error e, next) => (rejected e, next)
  | (.ok userToken, next) =>
    (.ok (({} : Response).setBody (LoginHandler.tokenBody userToken userId)).setSuccessfulHeader,
      next)

/-- A sign-in reads the person whom Facebook describes and goes on with the account. -/
theorem handlePostRequest_eq (session : Option Session) :
    handlePostRequest env session httpMessage
      = (do
        let created ← Action.ofExcept (facebookPerson env httpMessage)
        let (person, personId) ← findOrCreate created
        let userToken ← Action.onStore fun db =>
          facebookLogin env.clock db env.loginTime env.newToken person.email
        return (({} : Response).setBody (LoginHandler.tokenBody userToken personId))
          |>.setSuccessfulHeader : Action Response).handling rejected := by
  simp only [handlePostRequest, facebookPerson]
  rw [Action.ofExcept_bind, Action.ofExcept_bind, bind_assoc (m := Except Exn)]

/-- Under a mail that is free an account is created. -/
theorem serve_findOrCreate_free {created : Person} {server : Server}
    (hfree : userExistsMail server.db created.email = false) :
    (findOrCreate created).serve server
      = ((savePerson server.db created.serializeMe (-1)).1.map fun userId => (created, userId),
        { server with db := (savePerson server.db created.serializeMe (-1)).2 }) := by
  unfold findOrCreate
  rw [Action.serve_bind, Action.serve_query]
  simp only [hfree]
  rw [if_pos (show (!false) = true from rfl), Action.serve_bind, Action.serve_onStore]
  cases (savePerson server.db created.serializeMe (-1)).1 <;> rfl

/-- The account of a mail that is there is found. -/
theorem serve_findOrCreate_there {created : Person} {server : Server}
    (hthere : userExistsMail server.db created.email) :
    (findOrCreate created).serve server
      = ((getUserByMail server.db created.email).map fun stored =>
        (stored, stored.id), server) := by
  unfold findOrCreate
  rw [Action.serve_bind, Action.serve_query]
  simp only [hthere]
  rw [if_neg (by simp), Action.serve_bind, Action.serve_query]
  cases getUserByMail server.db created.email <;> rfl

/-- Without a person nothing is done. -/
theorem facebookPost_of_error {e : Exn} (h : facebookPerson env httpMessage = .error e)
    (db : DB) :
    facebookPost env db httpMessage = (rejected e, db) := by
  rw [facebookPost, handlePostRequest_eq, h]
  rfl

/-- With a person the account is found or created, and then entered. -/
theorem facebookPost_of_ok {created : Person} (h : facebookPerson env httpMessage = .ok created) :
    facebookPost env db httpMessage
      = match (findOrCreate created).serve { db, files := fun _ => none } with
        | (.error e, next) => (rejected e, next.db)
        | (.ok (person, userId), next) => facebookAnswer env next.db person.email userId := by
  rw [facebookPost, handlePostRequest_eq, h]
  rcases hfound : (findOrCreate created).serve { db, files := fun _ => none } with ⟨result, next⟩
  rw [Action.serve_handling, Action.serve_bind_ok (Action.serve_ofExcept _ _)]
  cases result with
  | error e => rw [Action.serve_bind_error hfound]
  | ok found =>
      obtain ⟨person, userId⟩ := found
      simp only [facebookAnswer]
      rcases hlogin : facebookLogin env.clock next.db env.loginTime env.newToken person.email with
        ⟨result, after⟩
      have hserve : Action.serve (Action.onStore fun db =>
          facebookLogin env.clock db env.loginTime env.newToken person.email) next
            = (result, { next with db := after }) := by
        rw [Action.serve_onStore, hlogin]
      rw [Action.serve_bind_ok hfound]
      cases result with
      | error e => rw [Action.serve_bind_error hserve]
      | ok userToken => rw [Action.serve_bind_ok hserve, Action.serve_pure]

/-- A sign-in with Facebook of a person whose mail is not there registers the person first. -/
theorem facebookPost_of_free {created : Person}
    (h : facebookPerson env httpMessage = .ok created)
    (hfree : userExistsMail db created.email = false) :
    facebookPost env db httpMessage
      = match savePerson db created.serializeMe (-1) with
        | (.error e, next) => (rejected e, next)
        | (.ok userId, next) => facebookAnswer env next created.email userId := by
  rw [facebookPost_of_ok h, serve_findOrCreate_free hfree]
  rcases savePerson db created.serializeMe (-1) with ⟨result, next⟩
  cases result <;> rfl

/-- The account of a mail that is there is entered. -/
theorem facebookPost_of_there {created : Person}
    (h : facebookPerson env httpMessage = .ok created)
    (hthere : userExistsMail db created.email) :
    facebookPost env db httpMessage
      = match getUserByMail db created.email with
        | .error e => (rejected e, db)
        | .ok stored => facebookAnswer env db stored.email stored.id := by
  rw [facebookPost_of_ok h, serve_findOrCreate_there hthere]
  cases getUserByMail db created.email <;> rfl

/-- Nobody chose the password of a person whom Facebook describes. -/
theorem password_of_facebookPerson {created : Person}
    (h : facebookPerson env httpMessage = .ok created) : created.password = [] := by
  simp only [facebookPerson, createPerson, bind_eq_ok] at h
  obtain ⟨_, -, _, -, firstName, -, lastName, -, birthday, -, email, -, hcreated⟩ := h
  cases hcreated
  rfl

/-- Entering an account writes tokens only. -/
theorem onlyTokens_facebookAnswer (env : Environment) (db : DB) (userMail : Text)
    (userId : Long) :
    OnlyTokens db (facebookAnswer env db userMail userId).2 := by
  have hlogin : OnlyTokens db
      (facebookLogin env.clock db env.loginTime env.newToken userMail).2 :=
    @onlyTokens_session env.clock db (.facebookLogin env.loginTime env.newToken userMail)
      (by simp)
  unfold facebookAnswer
  split
  · rename_i e next hresult
    rwa [hresult] at hlogin
  · rename_i userToken next hresult
    rwa [hresult] at hlogin

end Facebook

/-! ## What an event does to users -/

/-- The call of `PersonManager` that an event makes, if it makes one. -/
inductive Event.Makes (db : DB) : Event → Call → Prop where
  | users (call : Call) : Makes db (.users call) call
  | session (juser : Json) (forceID : Long) :
      Makes db (.session (.savePerson juser forceID)) (.savePerson juser forceID)
  | facebook {env : Environment} {httpMessage : HttpMessage} {created : Person}
      (hcreated : facebookPerson env httpMessage = .ok created)
      (hfree : userExistsMail db created.email = false) :
      Makes db (.facebook env httpMessage) (.savePerson created.serializeMe (-1))

/-- An event makes one call at most. -/
theorem Event.Makes.unique {event : Event} {call other : Call} (h : event.Makes db call)
    (hother : event.Makes db other) : other = call := by
  cases h with
  | users => cases hother; rfl
  | session => cases hother; rfl
  | facebook hcreated =>
      cases hother with
      | facebook hsame =>
          rw [hcreated] at hsame
          cases hsame
          rfl

/-- An event makes one call, or it makes none; otherwise it changes only tokens. -/
theorem Happens.makes {event : Event} (h : Happens clock db event next) :
    (∀ call, ¬ event.Makes db call) ∧ OnlyTokens db next ∨
      ∃ call, event.Makes db call ∧ OnlyTokens (exec db call).2 next := by
  have h : event.run clock db = next := h
  subst h
  cases event with
  | users call => exact .inr ⟨call, .users call, .refl _⟩
  | session call =>
      by_cases hcall : ∃ juser forceID, call = .savePerson juser forceID
      · obtain ⟨juser, forceID, rfl⟩ := hcall
        exact .inr ⟨_, .session juser forceID, .refl _⟩
      · refine .inl ⟨?_, onlyTokens_session clock db fun juser forceID hsame => ?_⟩
        · intro other hmakes
          cases hmakes
          exact hcall ⟨_, _, rfl⟩
        · exact hcall ⟨juser, forceID, hsame⟩
  | facebook env httpMessage =>
      rw [Event.run]
      cases hperson : facebookPerson env httpMessage with
      | error e =>
          rw [facebookPost_of_error hperson]
          refine .inl ⟨fun call hmakes => ?_, .refl db⟩
          cases hmakes with
          | facebook hcreated =>
              rw [hperson] at hcreated
              cases hcreated
      | ok created =>
          cases hthere : userExistsMail db created.email with
          | true =>
              rw [facebookPost_of_there hperson hthere]
              refine .inl ⟨fun call hmakes => ?_, ?_⟩
              · cases hmakes with
                | facebook hcreated hfree =>
                    rw [hperson] at hcreated
                    cases hcreated
                    rw [hthere] at hfree
                    cases hfree
              · split
                · exact .refl db
                · exact onlyTokens_facebookAnswer _ _ _ _
          | false =>
              refine .inr ⟨_, .facebook hperson hthere, ?_⟩
              rw [facebookPost_of_free hperson hthere, exec, outcome]
              split
              · rename_i e next hsave
                rw [hsave]
                exact .refl _
              · rename_i userId next hsave
                rw [hsave]
                exact onlyTokens_facebookAnswer _ _ _ _

/-- Every event keeps a store consistent. -/
theorem Happens.consistent {event : Event} (h : Happens clock db event next)
    (hdb : Consistent db) : Consistent next := by
  rcases h.makes with ⟨-, htokens⟩ | ⟨call, -, htokens⟩
  · exact htokens.consistent hdb
  · exact htokens.consistent (hdb.exec call)

/-- Tokens that are written after a call change nothing of its effect. -/
theorem OnlyTokens.effect (h : OnlyTokens middle next) {call : Call} {result : Outcome}
    (heffect : Effect db call result middle) : Effect db call result next := by
  have hkey : ∀ family rest, Prefix.OfUser family →
      next.existsKey (key family rest) = middle.existsKey (key family rest) :=
    fun _ rest hfamily => h.ofUser hfamily rest
  have hmail := fun mail => hkey .userMail mail (.inl rfl)
  have huuid := fun rest => hkey .userUuid rest (.inr (.inl rfl))
  have hpassword := fun mail => hkey .userPassword mail (.inr (.inr rfl))
  have hcounter := h.counter
  cases heffect with
  | kept hcall hsame hlast =>
      refine .kept hcall (fun family rest hfamily => ?_) (hcounter.trans hlast)
      exact (hkey family rest hfamily).trans (hsame family rest hfamily)
  | registered hread hfree hassigned hrecord hid hchosen hlast =>
      exact .registered hread hfree hassigned (fun mail => (hmail mail).trans (hrecord mail))
        (fun rest => (huuid rest).trans (hid rest))
        (fun mail => (hpassword mail).trans (hchosen mail)) (hcounter.trans hlast)
  | updated hread hold hrecord hid hchosen hlast =>
      exact .updated hread hold (fun mail => (hmail mail).trans (hrecord mail))
        (fun rest => (huuid rest).trans (hid rest))
        (fun mail => (hpassword mail).trans (hchosen mail)) (hcounter.trans hlast)
  | recommended hcall hread hrecord hsame hlast =>
      refine .recommended hcall hread (fun mail => (hmail mail).trans (hrecord mail)) ?_
        (hcounter.trans hlast)
      intro family rest hfamily
      refine (hkey family rest ?_).trans (hsame family rest hfamily)
      exact .inr hfamily
  | deleted hread hrecord hid hchosen hlast =>
      exact .deleted hread (fun mail => (hmail mail).trans (hrecord mail))
        (fun rest => (huuid rest).trans (hid rest))
        (fun mail => (hpassword mail).trans (hchosen mail)) (hcounter.trans hlast)
  | halfDeleted hread hrecord hid hchosen hlast =>
      exact .halfDeleted hread (fun mail => (hmail mail).trans (hrecord mail))
        (fun rest => (huuid rest).trans (hid rest))
        (fun mail => (hpassword mail).trans (hchosen mail)) (hcounter.trans hlast)

/-- What an event does to the keys of users is what the call that it makes does to them. -/
theorem Happens.effect {event : Event} (h : Happens clock db event next) (hdb : Consistent db) :
    (∀ call, ¬ event.Makes db call) ∧ OnlyTokens db next ∨
      ∃ call result, event.Makes db call ∧ (exec db call).1 = result ∧
        Effect db call result next := by
  rcases h.makes with htokens | ⟨call, hmakes, htokens⟩
  · exact .inl htokens
  · exact .inr ⟨call, _, hmakes, rfl, htokens.effect (effect_exec hdb call)⟩

end TallerII
