import TallerII.Session

/-!
# Where sessions come from

Under a token stands the user to whom the token was issued, as long as nothing but an issued token
is presented. A mail has a record of the same family of keys, so a mail can be presented too: it
is accepted, with a session that belongs to nobody.
-/

namespace TallerII.SessionManager

open Manager PersonManager Lib

variable {clock : Clock} {db next : DB}

/-- A call that registers a user or concerns sessions. -/
inductive SessionCall where
  | savePerson (juser : Json) (forceID : Long)
  | login (now : Int) (token userMail userPassword : Text)
  | facebookLogin (now : Int) (token userMail : Text)
  | saveToken (now : Int) (token userMail : Text)
  | getSession (now : Readings) (token : Text)

/-- Runs a call; what it leaves also when it throws. -/
def SessionCall.run (clock : Clock) (db : DB) : SessionCall → DB
  | savePerson juser forceID => (PersonManager.savePerson db juser forceID).2
  | login now token userMail userPassword =>
    (SessionManager.login clock db now token userMail userPassword).2
  | facebookLogin now token userMail =>
      (SessionManager.facebookLogin clock db now token userMail).2
  | saveToken now token userMail => (SessionManager.saveToken clock db now token userMail).2
  | getSession now token => (SessionManager.getSession clock db now token).2

/-- A call, whether it returns or throws. -/
def Steps (clock : Clock) (db : DB) (call : SessionCall) (next : DB) : Prop :=
  call.run clock db = next

/-- A call that issues a token to a mail. -/
def SessionCall.Issues (clock : Clock) (db : DB) (token userMail : Text) : SessionCall → Prop
  | login now drawn mail userPassword => drawn = token ∧ mail = userMail ∧
    (SessionManager.login clock db now drawn mail userPassword).1 = .ok token
  | facebookLogin now drawn mail => drawn = token ∧ mail = userMail ∧
    (SessionManager.facebookLogin clock db now drawn mail).1 = .ok token
  | saveToken now drawn mail => drawn = token ∧ mail = userMail ∧
    (SessionManager.saveToken clock db now drawn mail).1 = .ok ()
  | _ => False

/-- Some call issued the token to the mail, which belonged to the user at that moment. -/
def Issued (clock : Clock) (calls : List SessionCall) (token userMail : Text) (userId : Long) :
    Prop :=
  ∃ (before : List SessionCall) (call : SessionCall) (after : List SessionCall) (moment : DB)
    (user : Person), calls = before ++ call :: after ∧ Run (Steps clock) ∅ before moment ∧
    call.Issues clock moment token userMail ∧ getUserByMail moment userMail = .ok user ∧
    user.id = userId

/-- A token that was issued stays so with later calls. -/
theorem Issued.append {calls : List SessionCall} {token userMail : Text} {userId : Long}
    (h : Issued clock calls token userMail userId) (later : List SessionCall) :
    Issued clock (calls ++ later) token userMail userId := by
  obtain ⟨before, call, after, moment, user, rfl, hrest⟩ := h
  refine ⟨before, call, after ++ later, moment, user, ?_, hrest⟩
  rw [List.append_assoc, List.cons_append]

/-- What is stored under the string was not stored there as the record of a mail. -/
def NotOfMail (db : DB) (token : Text) : Prop :=
  ∀ entry, db.existsKey (key .userToken token) = some entry →
    entry.parse.isMember "user_token" = .ok false

/-- No string is presented as a token under which the record of a mail stands. -/
def PresentsToken (db : DB) : SessionCall → Prop
  | .getSession _ token => NotOfMail db token
  | _ => True

/-- Every record is the one of a mail, or the one of a user to whom the token was issued. -/
def Provenance (clock : Clock) (calls : List SessionCall) (db : DB) : Prop :=
  ∀ rest entry, db.existsKey (key .userToken rest) = some entry →
    (∃ now token, entry = .json (tokenRecord clock now token)) ∨
      ∃ now userMail userId, entry = .json (userRecord clock now userMail userId) ∧
        Issued clock calls rest userMail userId

/-- There is no token yet. -/
theorem provenance_empty : Provenance clock [] ∅ := by
  intro rest entry hentry
  rw [DB.existsKey_empty] at hentry
  cases hentry

/-- A call that writes no token keeps where the tokens come from. -/
theorem Provenance.frame {calls : List SessionCall} (h : Provenance clock calls db)
    (call : SessionCall)
    (hsame : ∀ rest, next.existsKey (key .userToken rest) = db.existsKey (key .userToken rest)) :
    Provenance clock (calls ++ [call]) next := by
  intro rest entry hentry
  rw [hsame] at hentry
  rcases h rest entry hentry with hmail | ⟨now, userMail, userId, hrecord, hissued⟩
  · exact .inl hmail
  · exact .inr ⟨now, userMail, userId, hrecord, hissued.append _⟩

/-- The two writes of a token that was issued keep the provenance. -/
theorem Provenance.putToken {calls : List SessionCall} {call : SessionCall}
    {token userMail : Text}
    {userId : Long} (h : Provenance clock calls db) (now : Int)
    (hissued : Issued clock (calls ++ [call]) token userMail userId) :
    Provenance clock (calls ++ [call]) (putToken clock db now token userMail userId) := by
  intro rest entry hentry
  rw [existsKey_putToken] at hentry
  split at hentry
  · rename_i hrest
    subst hrest
    cases hentry
    exact .inr ⟨now, userMail, userId, rfl, hissued⟩
  · split at hentry
    · cases hentry
      exact .inl ⟨now, token, rfl⟩
    · exact h.frame call (fun _ => rfl) rest entry hentry

/-- `saveToken` throws before any write, or issues the token. -/
theorem saveToken_cases (clock : Clock) (db : DB) (now : Int) (token userMail : Text) :
    (∃ e, saveToken clock db now token userMail = (.error e, db)) ∨
      ∃ user, getUserByMail db userMail = .ok user ∧
        saveToken clock db now token userMail
          = (.ok (), SessionManager.putToken clock db now token userMail user.id) := by
  unfold saveToken
  cases hread : getUserByMail db userMail with
  | error e => exact .inl ⟨e, rfl⟩
  | ok user => exact .inr ⟨user, rfl, rfl⟩

/-- A login throws before any write, or issues the token that is drawn. -/
theorem login_cases (clock : Clock) (db : DB) (now : Int) (token userMail userPassword : Text) :
    (∃ e, login clock db now token userMail userPassword = (.error e, db)) ∨
      ∃ user, getUserByMail db userMail = .ok user ∧
        login clock db now token userMail userPassword
          = (.ok token, SessionManager.putToken clock db now token userMail user.id) := by
  unfold login
  split
  · exact .inl ⟨_, rfl⟩
  · split
    · exact .inl ⟨_, rfl⟩
    · rcases saveToken_cases clock db now token userMail with ⟨e, hsave⟩ | ⟨user, hread, hsave⟩
      · exact .inl ⟨e, by rw [hsave]⟩
      · exact .inr ⟨user, hread, by rw [hsave]⟩

/-- A sign-in throws or issues a token for the user of the mail. -/
theorem facebookLogin_cases (clock : Clock) (db : DB) (now : Int) (token userMail : Text) :
    (∃ e, facebookLogin clock db now token userMail = (.error e, db)) ∨
      ∃ user, getUserByMail db userMail = .ok user ∧
        facebookLogin clock db now token userMail
          = (.ok token, SessionManager.putToken clock db now token userMail user.id) := by
  unfold facebookLogin
  split
  · exact .inl ⟨_, rfl⟩
  · rcases saveToken_cases clock db now token userMail with ⟨e, hsave⟩ | ⟨user, hread, hsave⟩
    · exact .inl ⟨e, by rw [hsave]⟩
    · exact .inr ⟨user, hread, by rw [hsave]⟩

/-- What a presented string leads to: nothing is written, or the user of a token that was issued
is written again, or the string has the record of a mail. -/
theorem Provenance.getSession_cases {calls : List SessionCall} (h : Provenance clock calls db)
    (now : Readings) (token : Text) :
    (∃ e, getSession clock db now token = (.error e, db)) ∨
      ∃ userMail userId,
        getSession clock db now token
          = (.ok { token, userMail, lastTime := now.returned, userId },
            SessionManager.putToken clock db now.updated token userMail userId) ∧
        (NotOfMail db token ∧ Issued clock calls token userMail userId ∨
          ¬ NotOfMail db token ∧ userMail = [] ∧ userId = 0) := by
  cases hentry : db.existsKey (key .userToken token) with
  | none => exact .inl ⟨.invalidToken, by rw [getSession, hentry]⟩
  | some entry =>
      rcases h token entry hentry
        with ⟨saved, issued, rfl⟩ | ⟨saved, userMail, userId, rfl, hissued⟩
      · have hofMail : ¬ NotOfMail db token := by
          intro hnot
          have hmember := hnot _ hentry
          rw [Entry.parse, isMember_tokenRecord] at hmember
          cases hmember
        rcases getSession_of_record clock now hentry (member_tokenRecord_mail _ _ _) rfl
          (member_tokenRecord_id _ _ _) rfl with hthrown | hsession
        · exact .inl hthrown
        · exact .inr ⟨[], 0, hsession, .inr ⟨hofMail, rfl, rfl⟩⟩
      · rcases getSession_of_record clock now hentry (member_userRecord_mail _ _ _ _) rfl
          (member_userRecord_id _ _ _ _) (Json.asLargestInt_ofLong userId) with hthrown | hsession
        · exact .inl hthrown
        · have hnot : NotOfMail db token := by
            intro other hother
            rw [hentry] at hother
            cases hother
            exact isMember_userRecord _ _ _ _
          exact .inr ⟨userMail, userId, hsession, .inl ⟨hnot, hissued⟩⟩

/-- A call that presents no mail keeps the provenance of every record. -/
theorem Provenance.step {calls : List SessionCall} {call : SessionCall}
    (h : Provenance clock calls db) (hrun : Run (Steps clock) ∅ calls db)
    (hstep : Steps clock db call next) (hpresents : PresentsToken db call) :
    Provenance clock (calls ++ [call]) next := by
  have hstep : call.run clock db = next := hstep
  have hissues {token userMail : Text} {user : Person}
      (hread : getUserByMail db userMail = .ok user)
      (hcall : call.Issues clock db token userMail) :
      Issued clock (calls ++ [call]) token userMail user.id :=
    ⟨calls, call, [], db, user, rfl, hrun, hcall, hread, rfl⟩
  subst hstep
  cases call with
  | savePerson juser forceID =>
      exact h.frame _ fun rest => existsKey_savePerson (apart_key (by simp) rest) juser forceID
  | login now token userMail userPassword =>
      rcases login_cases clock db now token userMail userPassword with
        ⟨e, hlogin⟩ | ⟨user, hread, hlogin⟩
      · rw [SessionCall.run, hlogin]
        exact h.frame _ fun _ => rfl
      · rw [SessionCall.run, hlogin]
        exact h.putToken now (hissues hread ⟨rfl, rfl, by rw [hlogin]⟩)
  | facebookLogin now token userMail =>
      rcases facebookLogin_cases clock db now token userMail with
        ⟨e, hlogin⟩ | ⟨user, hread, hlogin⟩
      · rw [SessionCall.run, hlogin]
        exact h.frame _ fun _ => rfl
      · rw [SessionCall.run, hlogin]
        exact h.putToken now (hissues hread ⟨rfl, rfl, by rw [hlogin]⟩)
  | saveToken now token userMail =>
      rcases saveToken_cases clock db now token userMail with ⟨e, hsave⟩ | ⟨user, hread, hsave⟩
      · rw [SessionCall.run, hsave]
        exact h.frame _ fun _ => rfl
      · rw [SessionCall.run, hsave]
        exact h.putToken now (hissues hread ⟨rfl, rfl, by rw [hsave]⟩)
  | getSession now token =>
      rcases h.getSession_cases now token with ⟨e, hsession⟩ | ⟨userMail, userId, hsession, hfrom⟩
      · rw [SessionCall.run, hsession]
        exact h.frame _ fun _ => rfl
      · rw [SessionCall.run, hsession]
        -- the record that is renewed was written for the token, or it stands under a mail
        rcases hfrom with ⟨-, hissued⟩ | ⟨hofMail, -⟩
        · exact h.putToken now.updated (hissued.append _)
        · exact absurd hpresents hofMail

/-- Along every run the tokens come from logins. -/
theorem provenance_of_run {calls : List SessionCall}
    (h : Run (Guarded (Steps clock) PresentsToken) ∅ calls db) : Provenance clock calls db := by
  induction h with
  | nil => exact provenance_empty
  | snoc hrun hlast ih => exact ih.step hrun.of_guarded hlast.1 hlast.2

/-- In a run that presents no mail as a token, a string that is no mail either is accepted only as
a token that was issued, and the session is of the user to whom it was. The record of a mail gives
a session of nobody. -/
theorem getSession_provenance {calls : List SessionCall}
    (h : Run (Guarded (Steps clock) PresentsToken) ∅ calls db) {now : Readings} {token : Text}
    {session : Session} (hsession : (getSession clock db now token).1 = .ok session) :
    (NotOfMail db token → Issued clock calls token session.userMail session.userId) ∧
      (¬ NotOfMail db token → session.userMail = [] ∧ session.userId = 0) := by
  rcases (provenance_of_run h).getSession_cases now token with
    ⟨e, hthrown⟩ | ⟨userMail, userId, hreturned, hfrom⟩
  · rw [hthrown] at hsession
    cases hsession
  · rw [hreturned] at hsession
    cases hsession
    rcases hfrom with ⟨hnot, hissued⟩ | ⟨hofMail, hnobody⟩
    · exact ⟨fun _ => hissued, fun hofMail => absurd hnot hofMail⟩
    · exact ⟨fun hnot => absurd hnot hofMail, fun _ => hnobody⟩

/-- A clock that stands still. -/
def stoppedClock : Clock where
  format _ := []
  read _ := 0

/-- A user registers. -/
def registers : SessionCall :=
  .savePerson (Person.sample ['a'] [] []).serializeMe (-1)

/-- A user registers and logs in. -/
def logsIn : List SessionCall :=
  [registers] ++ [.login 0 ['t'] ['a'] []]

/-- What these calls leave. -/
def loggedIn : DB :=
  logsIn.foldl (fun db call => call.run stoppedClock db) ∅

/-- The mail is accepted as a token that was never issued. -/
theorem getSession_of_mail :
    Run (Steps stoppedClock) ∅ logsIn loggedIn ∧
      (getSession stoppedClock loggedIn ⟨0, 0, 0⟩ ['a']).1
        = .ok { token := ['a'], userMail := [], lastTime := 0, userId := 0 } ∧
      ∀ userMail userId, ¬ Issued stoppedClock logsIn ['a'] userMail userId := by
  have hregistered : Run (Steps stoppedClock) ∅ [registers] (registers.run stoppedClock ∅) :=
    Run.nil.snoc rfl
  refine ⟨hregistered.snoc rfl, by decide, ?_⟩
  rintro userMail userId ⟨before, call, after, moment, user, hcalls, -, hissues, -⟩
  have hmem : call ∈ logsIn := by
    rw [hcalls]
    exact List.mem_append_right _ List.mem_cons_self
  have hcall : call = registers ∨ call = .login 0 ['t'] ['a'] [] := by
    simpa [logsIn] using hmem
  rcases hcall with rfl | rfl
  · exact hissues
  · exact absurd hissues.1 (by decide)

/-- The token that was drawn gives the session of the user. -/
theorem getSession_provenance_login :
    Issued stoppedClock logsIn ['t'] ['a'] 1 := by
  have hregistered : Run (Guarded (Steps stoppedClock) PresentsToken) ∅ [registers]
      (registers.run stoppedClock ∅) := Run.nil.snoc ⟨rfl, trivial⟩
  have hrun : Run (Guarded (Steps stoppedClock) PresentsToken) ∅ logsIn loggedIn :=
    hregistered.snoc ⟨rfl, trivial⟩
  have hsession : (getSession stoppedClock loggedIn ⟨0, 0, 0⟩ ['t']).1
      = .ok { token := ['t'], userMail := ['a'], lastTime := 0, userId := 1 } := by decide
  have hnot : NotOfMail loggedIn ['t'] := by
    intro entry hentry
    have hmember : (loggedIn.existsKey (key .userToken ['t'])).map
        (fun entry => entry.parse.isMember "user_token") = some (.ok false) := by decide
    rw [hentry] at hmember
    exact Option.some.inj hmember
  exact (getSession_provenance hrun hsession).1 hnot

end TallerII.SessionManager
