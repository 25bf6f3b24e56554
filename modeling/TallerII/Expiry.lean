import TallerII.Tokens

/-!
# Expiry of tokens

A token is accepted while at most 14400 seconds have passed since it was issued or last accepted.
`getSession_sliding` says so for every token of every run, whatever else is issued and presented.
Tokens are not empty: `getNewToken` draws eight characters. For the empty string it would fail,
since presenting a mail as a token writes the record of the empty mail.
-/

namespace TallerII.SessionManager

open Manager PersonManager Lib

variable {clock : Clock} {db next : DB}

/-! ## What a call writes -/

/-- A call returns. -/
def SessionCall.returns (clock : Clock) (db : DB) : SessionCall → Bool
  | savePerson juser forceID => (PersonManager.savePerson db juser forceID).1.isOk
  | login now token userMail userPassword =>
    (SessionManager.login clock db now token userMail userPassword).1.isOk
  | facebookLogin now token userMail =>
    (SessionManager.facebookLogin clock db now token userMail).1.isOk
  | saveToken now token userMail => (SessionManager.saveToken clock db now token userMail).1.isOk
  | getSession now token => (SessionManager.getSession clock db now token).1.isOk

/-- A call with whether it returned. -/
def Recorded (clock : Clock) (db : DB) (recorded : SessionCall × Bool) (next : DB) : Prop :=
  recorded.1.run clock db = next ∧ recorded.1.returns clock db = recorded.2

/-- When and which token a call issues if it returns. -/
def SessionCall.draws : SessionCall → Option (Int × Text)
  | login now token _ _ => some (now, token)
  | facebookLogin now token _ => some (now, token)
  | saveToken now token _ => some (now, token)
  | _ => none

/-- What a call wrote to the records of tokens. -/
inductive Writes (clock : Clock) (db : DB) : SessionCall → Bool → DB → Prop where
  | registered {juser : Json} {forceID : Long} {returned : Bool} {next : DB}
      (hsame : ∀ rest,
        next.existsKey (key .userToken rest) = db.existsKey (key .userToken rest)) :
      Writes clock db (.savePerson juser forceID) returned next
  | refused {call : SessionCall} : Writes clock db call false db
  | issued {call : SessionCall} {now : Int} {token userMail : Text} {user : Person}
      (hdraws : call.draws = some (now, token)) (hread : getUserByMail db userMail = .ok user) :
      Writes clock db call true (putToken clock db now token userMail user.id)
  | renewed {now : Readings} {token userMail : Text} {userId : Long} {entry : Entry}
      (hentry : db.existsKey (key .userToken token) = some entry)
      (hmail : (entry.parse.member "user_mail" >>= Json.asString) = .ok userMail) :
      Writes clock db (.getSession now token) true
        (putToken clock db now.updated token userMail userId)

/-- A call that is recorded writes what its kind writes. -/
theorem Recorded.writes {call : SessionCall} {returned : Bool}
    (h : Recorded clock db (call, returned) next) : Writes clock db call returned next := by
  obtain ⟨hrun, hreturned⟩ := h
  have hrun : call.run clock db = next := hrun
  have hreturned : call.returns clock db = returned := hreturned
  subst hrun hreturned
  cases call with
  | savePerson juser forceID =>
      exact .registered fun rest => existsKey_token_exec (.savePerson juser forceID) rest
  | login now token userMail userPassword =>
      rw [SessionCall.run, SessionCall.returns]
      rcases login_cases clock db now token userMail userPassword with
        ⟨e, hlogin⟩ | ⟨user, hread, hlogin⟩
      · rw [hlogin]
        exact .refused
      · rw [hlogin]
        exact .issued rfl hread
  | facebookLogin now token userMail =>
      rw [SessionCall.run, SessionCall.returns]
      rcases facebookLogin_cases clock db now token userMail with
        ⟨e, hlogin⟩ | ⟨user, hread, hlogin⟩
      · rw [hlogin]
        exact .refused
      · rw [hlogin]
        exact .issued rfl hread
  | saveToken now token userMail =>
      rw [SessionCall.run, SessionCall.returns]
      rcases saveToken_cases clock db now token userMail with ⟨e, hsave⟩ | ⟨user, hread, hsave⟩
      · rw [hsave]
        exact .refused
      · rw [hsave]
        exact .issued rfl hread
  | getSession now token =>
      rw [SessionCall.run, SessionCall.returns]
      rcases getSession_cases clock db now token with
        ⟨e, -, hthrown⟩ | ⟨session, entry, htoken, hentry, hmail, -, hsession⟩
      · rw [hthrown]
        exact .refused
      · rw [hsession, htoken]
        exact .renewed hentry hmail

/-! ## The records that a run leaves -/

/-- No record is the one of a user whose mail is the token. -/
def Elsewhere (clock : Clock) (token : Text) (db : DB) : Prop :=
  ∀ rest entry, db.existsKey (key .userToken rest) = some entry →
    (∃ now issued, entry = .json (tokenRecord clock now issued)) ∨
      ∃ now userMail userId, entry = .json (userRecord clock now userMail userId) ∧
        userMail ≠ token

/-- No user has the token as a mail. -/
def Distinguishes (token : Text) (db : DB) : Prop :=
  ∀ mail user, getUserByMail db mail = .ok user → mail ≠ token

/-- A token that is issued for another mail stands elsewhere. -/
theorem Elsewhere.putToken {token : Text} (h : Elsewhere clock token db) {userMail : Text}
    (hmail : userMail ≠ token) (now : Int) (issued : Text) (userId : Long) :
    Elsewhere clock token (putToken clock db now issued userMail userId) := by
  intro rest entry hentry
  rw [existsKey_putToken] at hentry
  split at hentry
  · cases hentry
    exact .inr ⟨now, userMail, userId, rfl, hmail⟩
  · split at hentry
    · cases hentry
      exact .inl ⟨now, issued, rfl⟩
    · exact h rest entry hentry

/-- The mail of a record that is presented is not the token: the record of a mail names the empty
one. -/
theorem Elsewhere.mail_ne {token presented userMail : Text} (h : Elsewhere clock token db)
    (htoken : token ≠ []) {entry : Entry}
    (hentry : db.existsKey (key .userToken presented) = some entry)
    (hmail : (entry.parse.member "user_mail" >>= Json.asString) = .ok userMail) :
    userMail ≠ token := by
  rcases h presented entry hentry with ⟨saved, issued, rfl⟩ | ⟨saved, mail, userId, rfl, hne⟩
  · rw [Entry.parse, member_tokenRecord_mail] at hmail
    cases hmail
    exact htoken.symm
  · rw [Entry.parse, member_userRecord_mail] at hmail
    cases hmail
    exact hne

/-- A call that does not present the token leaves it to its own key. -/
theorem Elsewhere.step {token : Text} (h : Elsewhere clock token db) (htoken : token ≠ [])
    {call : SessionCall} {returned : Bool} (hwrites : Writes clock db call returned next)
    (hdistinguishes : Distinguishes token db) : Elsewhere clock token next := by
  cases hwrites with
  | registered hsame =>
      intro rest entry hentry
      rw [hsame] at hentry
      exact h rest entry hentry
  | refused => exact h
  | issued hdraws hread => exact h.putToken (hdistinguishes _ _ hread) _ _ _
  | renewed hentry hmail => exact h.putToken (h.mail_ne htoken hentry hmail) _ _ _

/-- Under the token stands the time at which it was issued or last accepted. -/
def Stamped (clock : Clock) (token : Text) (lastUsed : Int) (db : DB) : Prop :=
  ∃ userMail userId, db.existsKey (key .userToken token)
    = some (.json (userRecord clock lastUsed userMail userId))

/-- The readings of the clock when the token was accepted. -/
def usesOf (token : Text) (recorded : List (SessionCall × Bool)) : List Int :=
  recorded.filterMap fun
    | (.getSession now presented, true) => if presented = token then some now.updated else none
    | _ => none

/-- The uses of a token in two parts of a run. -/
theorem usesOf_append (token : Text) (first second : List (SessionCall × Bool)) :
    usesOf token (first ++ second) = usesOf token first ++ usesOf token second :=
  List.filterMap_append

/-- A call that issues a token is no use of it. -/
theorem usesOf_of_draws {token : Text} {call : SessionCall} {returned : Bool} {now : Int}
    {issued : Text} (hdraws : call.draws = some (now, issued)) :
    usesOf token [(call, returned)] = [] := by
  cases call with
  | savePerson => rfl
  | login => rfl
  | facebookLogin => rfl
  | saveToken => rfl
  | getSession => cases hdraws

/-- The time of the last use, when there was one since the token was issued. -/
def lastUse (token : Text) (issued : Int) (recorded : List (SessionCall × Bool)) : Int :=
  (usesOf token recorded).getLast?.getD issued

/-- A stamp depends on the record of the token alone. -/
theorem Stamped.congr {token : Text} {lastUsed : Int} (h : Stamped clock token lastUsed db)
    (hsame : next.existsKey (key .userToken token) = db.existsKey (key .userToken token)) :
    Stamped clock token lastUsed next := by
  obtain ⟨userMail, userId, hentry⟩ := h
  exact ⟨userMail, userId, hsame.trans hentry⟩

/-- Writing another token for another mail leaves the record alone. -/
theorem Stamped.putToken {token : Text} {lastUsed : Int} (h : Stamped clock token lastUsed db)
    {issued userMail : Text} (hissued : issued ≠ token) (hmail : userMail ≠ token) (now : Int)
    (userId : Long) :
    Stamped clock token lastUsed (putToken clock db now issued userMail userId) := by
  refine h.congr ?_
  rw [existsKey_putToken, if_neg hissued, if_neg hmail]

/-- A token that is written carries the time of the write. -/
theorem stamped_putToken (clock : Clock) (db : DB) (now : Int) (token userMail : Text)
    (userId : Long) : Stamped clock token now (putToken clock db now token userMail userId) := by
  refine ⟨userMail, userId, ?_⟩
  rw [existsKey_putToken, if_pos rfl]

/-- Only a use of the token changes the time of its record. -/
theorem Stamped.step {token : Text} {lastUsed : Int} (h : Stamped clock token lastUsed db)
    (helsewhere : Elsewhere clock token db) (htoken : token ≠ []) {call : SessionCall}
    {returned : Bool} (hwrites : Writes clock db call returned next)
    (hdistinguishes : Distinguishes token db)
    (hdistinct : ∀ now, call.draws ≠ some (now, token)) :
    Stamped clock token (lastUse token lastUsed [(call, returned)]) next := by
  cases hwrites with
  | registered hsame => exact h.congr (hsame token)
  | refused =>
      have hnone : usesOf token [(call, false)] = [] := by
        cases call <;> rfl
      rwa [lastUse, hnone]
  | @issued _ now issued userMail user hdraws hread =>
      rw [lastUse, usesOf_of_draws hdraws]
      refine h.putToken ?_ (hdistinguishes _ _ hread) _ _
      rintro rfl
      exact hdistinct now hdraws
  | @renewed now presented userMail userId entry hentry hmail =>
      have huses : usesOf token [(.getSession now presented, true)]
          = if presented = token then [now.updated] else [] := by
        rw [usesOf, List.filterMap_cons]
        split <;> rename_i heq <;> split at heq <;> simp_all
      rw [lastUse, huses]
      by_cases hsame : presented = token
      · subst hsame
        rw [if_pos rfl]
        exact stamped_putToken _ _ _ _ _ _
      · rw [if_neg hsame]
        exact h.putToken hsame (helsewhere.mail_ne htoken hentry hmail) _ _

/-! ## Runs -/

/-- The readings of the clock during a call. -/
def SessionCall.times : SessionCall → List Int
  | savePerson _ _ => []
  | login now _ _ _ => [now]
  | facebookLogin now _ _ => [now]
  | saveToken now _ _ => [now]
  | getSession now _ => [now.checked, now.updated]

/-- A call in a store where no user has the token as a mail. -/
def Apart (clock : Clock) (token : Text) : DB → SessionCall × Bool → DB → Prop :=
  Guarded (Recorded clock) fun db _ => Distinguishes token db

/-- The mails of a run stay apart from the token. -/
theorem Elsewhere.of_run {token : Text} (htoken : token ≠ []) {start : DB}
    {recorded : List (SessionCall × Bool)} (hstart : Elsewhere clock token start)
    (h : Run (Apart clock token) start recorded db) : Elsewhere clock token db := by
  induction h with
  | nil => exact hstart
  | snoc _ hlast ih => exact ih.step htoken hlast.1.writes hlast.2

/-- After calls that do not issue the token again, its record has the time of the last use. -/
theorem Stamped.of_run {token : Text} (htoken : token ≠ []) {issued : Int} {start : DB}
    {recorded : List (SessionCall × Bool)} (hstart : Stamped clock token issued start)
    (helsewhere : Elsewhere clock token start)
    (hdistinct : ∀ call ∈ recorded, ∀ now, call.1.draws ≠ some (now, token))
    (h : Run (Apart clock token) start recorded db) :
    Stamped clock token (lastUse token issued recorded) db := by
  induction h with
  | nil => exact hstart
  | @snoc recorded state next last hbefore hlast ih =>
      have hstamped := ih fun call hcall => hdistinct call (List.mem_append_left _ hcall)
      have hnext := hstamped.step (helsewhere.of_run htoken hbefore) htoken hlast.1.writes hlast.2
        (hdistinct last (by simp))
      have hlastUse : lastUse token issued (recorded ++ [last])
          = lastUse token (lastUse token issued recorded) [last] := by
        rw [lastUse, lastUse, usesOf_append, List.getLast?_append]
        cases (usesOf token [last]).getLast? <;> rfl
      rwa [hlastUse]

/-- In a store without tokens there is no record. -/
theorem elsewhere_of_reachable (h : Reachable db) (clock : Clock) (token : Text) :
    Elsewhere clock token db := by
  obtain ⟨calls, hrun⟩ := h
  have hnone : ∀ rest, db.existsKey (key .userToken rest) = none := by
    induction hrun with
    | nil => exact fun rest => DB.existsKey_empty _
    | @snoc _ state next call _ hlast ih =>
        intro rest
        have hstep : (exec state call).2 = next := hlast
        rw [← hstep, existsKey_token_exec, ih]
  intro rest entry hentry
  rw [hnone] at hentry
  cases hentry

/-- A record is accepted iff it is not older than 14400 seconds. -/
theorem Stamped.getSession_iff {token : Text} {lastUsed : Int}
    (h : Stamped clock token lastUsed db)
    (hclock : clock.read (clock.format lastUsed) = lastUsed) (now : Readings) :
    (∃ session, (getSession clock db now token).1 = .ok session) ↔
      now.checked - lastUsed ≤ 14400 := by
  obtain ⟨userMail, userId, hentry⟩ := h
  rw [getSession_of_lastUsed clock now hclock hentry (member_userRecord_lastUsed _ _ _ _)
    (member_userRecord_mail _ _ _ _) rfl (member_userRecord_id _ _ _ _)
    (Json.asLargestInt_ofLong userId)]
  split
  · rename_i hrecent
    simp [hrecent]
  · rename_i hlate
    simp [hlate]

/-- The uses of a token are among the readings of the clock. -/
theorem mem_times_of_mem_usesOf {token : Text} {recorded : List (SessionCall × Bool)} {use : Int}
    (h : use ∈ usesOf token recorded) :
    use ∈ recorded.flatMap fun call => call.1.times := by
  obtain ⟨⟨call, returned⟩, hcall, huse⟩ := List.mem_filterMap.mp h
  refine List.mem_flatMap.mpr ⟨_, hcall, ?_⟩
  split at huse
  · rename_i now presented hsame
    cases hsame
    split at huse
    · cases huse
      simp [SessionCall.times]
    · cases huse
  · cases huse

/-- A token is accepted iff at most 14400 seconds have passed since the later of its issue and its
last use, whatever happened to other tokens; and a token that is rejected changes nothing. -/
theorem getSession_sliding (hclock : ∀ now, clock.read (clock.format now) = now) {start : DB}
    (hstart : Reachable start) {before after : List (SessionCall × Bool)} {moment following : DB}
    {call : SessionCall} {issued : Int} {token : Text} (htoken : token ≠ [])
    (hdraws : call.draws = some (issued, token))
    (hbefore : Run (Apart clock token) start before moment)
    (hissue : Apart clock token moment (call, true) following)
    (hafter : Run (Apart clock token) following after db)
    (hdistinct : ∀ other ∈ after, ∀ now, other.1.draws ≠ some (now, token))
    (hmonotone : ((before ++ (call, true) :: after).flatMap fun recorded =>
      recorded.1.times).Pairwise (· ≤ ·)) (now : Readings) :
    ((∃ session, (getSession clock db now token).1 = .ok session) ↔
      now.checked - max issued (lastUse token issued after) ≤ 14400) ∧
    ∀ presented e, (getSession clock db now presented).1 = .error e →
      (getSession clock db now presented).2 = db := by
  refine ⟨?_, ?_⟩
  · -- no user's record names the token as a mail, so none is taken for the token's own record
    have helsewhere := (elsewhere_of_reachable hstart clock token).of_run htoken hbefore
    have hfollowing := helsewhere.step htoken hissue.1.writes hissue.2
    have hstamped : Stamped clock token issued following := by
      cases hissue.1.writes with
      | registered => cases hdraws
      | issued hsame =>
          rw [hdraws] at hsame
          cases hsame
          exact stamped_putToken _ _ _ _ _ _
      | renewed => cases hdraws
    -- times only go forward, so a use is not earlier than the issue
    have hlater : issued ≤ lastUse token issued after := by
      rw [lastUse]
      cases hlast : (usesOf token after).getLast? with
      | none => exact le_rfl
      | some use =>
          have huse := mem_times_of_mem_usesOf (List.mem_of_getLast? hlast)
          have htimes : issued ∈ call.times := by
            cases call <;> cases hdraws <;> simp [SessionCall.times]
          rw [List.flatMap_append, List.pairwise_append, List.flatMap_cons,
            List.pairwise_append] at hmonotone
          exact hmonotone.2.1.2.2 issued htimes use huse
    rw [max_eq_right hlater]
    exact (hstamped.of_run htoken hfollowing hdistinct hafter).getSession_iff (hclock _) now
  · intro presented e hthrown
    rcases getSession_cases clock db now presented with
      ⟨_, -, hsession⟩ | ⟨session, _, -, -, -, -, hsession⟩
    · rw [hsession]
    · rw [hsession] at hthrown
      cases hthrown

/-! ## A token that is used and one that is not -/

/-- A clock that writes a time as a tally. -/
def tallyClock : Clock where
  format now := List.replicate (Equiv.intEquivNat now) 'x'
  read text := Equiv.intEquivNat.symm text.length

/-- The clock reads the time that it wrote. -/
theorem read_format_tallyClock (now : Int) : tallyClock.read (tallyClock.format now) = now := by
  simp [tallyClock]

/-- A login with the password that is stored. -/
theorem recorded_login {userMail password : Text} {user : Person}
    (hpassword : db.existsKey (key .userPassword userMail) = some (.text password))
    (hread : getUserByMail db userMail = .ok user) (now : Int) (token : Text) :
    Recorded clock db (.login now token userMail password, true)
      (putToken clock db now token userMail user.id) := by
  have hlogin : login clock db now token userMail password
      = (.ok token, putToken clock db now token userMail user.id) := by
    rw [login, hpassword]
    simp [Entry.asText, saveToken, hread]
  refine ⟨?_, ?_⟩
  · rw [SessionCall.run, hlogin]
  · rw [SessionCall.returns, hlogin]
    rfl

/-- A use of a token while it is not too old. -/
theorem recorded_getSession {token userMail : Text} {lastUsed : Int} {userId : Long}
    (hclock : clock.read (clock.format lastUsed) = lastUsed)
    (hentry : db.existsKey (key .userToken token)
      = some (.json (userRecord clock lastUsed userMail userId)))
    {now : Readings} (hrecent : now.checked - lastUsed ≤ 14400) :
    Recorded clock db (.getSession now token, true)
      (putToken clock db now.updated token userMail userId) := by
  have hsession :=
    getSession_of_lastUsed clock now hclock hentry (member_userRecord_lastUsed _ _ _ _)
    (member_userRecord_mail _ _ _ _) rfl (member_userRecord_id _ _ _ _)
    (Json.asLargestInt_ofLong userId)
  rw [if_pos hrecent] at hsession
  refine ⟨?_, ?_⟩
  · rw [SessionCall.run, hsession]
  · rw [SessionCall.returns, hsession]
    rfl

/-- Two users with the empty password. -/
def twoUsers : DB :=
  execAll ([['a'], ['b']].map fun mail => .savePerson (Person.sample mail [] []).serializeMe (-1))

/-- The first user logs in at 0 and the second one at 5000; the first one's token is used at
10000. -/
def afterUse : DB :=
  let first := putToken tallyClock twoUsers 0 ['t'] ['a'] 1
  let second := putToken tallyClock first 5000 ['u'] ['b'] 2
  putToken tallyClock second 10000 ['t'] ['a'] 1

/-- Four hours after its use the token is accepted and a second later it is not. -/
theorem getSession_sliding_afterUse :
    (∃ session, (getSession tallyClock afterUse ⟨24400, 24400, 24400⟩ ['t']).1 = .ok session) ∧
      ¬ ∃ session, (getSession tallyClock afterUse ⟨24401, 24401, 24401⟩ ['t']).1
        = .ok session := by
  let first := putToken tallyClock twoUsers 0 ['t'] ['a'] 1
  let second := putToken tallyClock first 5000 ['u'] ['b'] 2
  have hsame : OnlyTokens twoUsers first := onlyTokens_putToken _ _ _ _ _ _
  have hlater : OnlyTokens first second := onlyTokens_putToken _ _ _ _ _ _
  have hmissing : Distinguishes ['t'] twoUsers := by
    rintro mail user hread rfl
    have hnone : getUserByMail twoUsers ['t'] = .error (.userNotFoundMail ['t']) := rfl
    rw [hnone] at hread
    cases hread
  have hfirst : Distinguishes ['t'] first := fun mail user hread =>
    hmissing mail user ((hsame.getUserByMail mail).symm.trans hread)
  have hsecond : Distinguishes ['t'] second := fun mail user hread =>
    hfirst mail user ((hlater.getUserByMail mail).symm.trans hread)
  have hissue : Apart tallyClock ['t'] twoUsers (.login 0 ['t'] ['a'] [], true) first :=
    ⟨@recorded_login tallyClock twoUsers _ [] { Person.sample ['a'] [] [] with id := 1 } rfl rfl 0
      ['t'],
      hmissing⟩
  have hother : Apart tallyClock ['t'] first (.login 5000 ['u'] ['b'] [], true) second :=
    ⟨@recorded_login tallyClock first _ [] { Person.sample ['b'] [] [] with id := 2 }
      ((hsame.other (by decide) _).trans rfl) ((hsame.getUserByMail _).trans rfl) 5000 ['u'],
        hfirst⟩
  have huse : Apart tallyClock ['t'] second (.getSession ⟨10000, 10000, 10000⟩ ['t'], true)
      afterUse := by
    refine ⟨@recorded_getSession tallyClock second _ ['a'] 0 1 (read_format_tallyClock 0) ?_ _ ?_,
      hsecond⟩
    · simp [second, first, existsKey_putToken]
    · decide
  have hsliding :=
    getSession_sliding read_format_tallyClock (reachable_execAll _) (by decide) rfl .nil
    hissue ((Run.nil.snoc hother).snoc huse) (by simp [SessionCall.draws])
    (by simp [SessionCall.times])
  exact ⟨(hsliding ⟨24400, 24400, 24400⟩).1.mpr (by decide),
    fun haccepted => absurd ((hsliding ⟨24401, 24401, 24401⟩).1.mp haccepted) (by decide)⟩

end TallerII.SessionManager
