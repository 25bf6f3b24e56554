import TallerII.Identity
import TallerII.Logins

/-!
# Tokens of deleted users

A token names the user to whom it was issued. A deletion leaves the records of tokens alone, so
the tokens of existing users only name existing users as long as nobody is deleted whom a token
names: `getSession_of_existing`. The record of a mail, which names nobody, must not be presented
either.
-/

namespace TallerII

open Manager PersonManager SessionManager Lib

variable {clock : Clock} {db next : DB}

/-! ## Accounts that can be entered -/

/-- The accounts with a password are those of existing users, and the counter has reached every
id. Unlike `Accounts` this survives a deletion that throws half-way. -/
structure Enterable (db : DB) : Prop where
  consistent : Consistent db
  counted : ∀ id, userExists db id → Counted db id
  entered : ∀ mail, (db.existsKey (key .userPassword mail)).isSome → ∃ user,
    getUserByMail db mail = .ok user ∧
      db.existsKey (key .userUuid (toString user.id)) = some (.text mail)

/-- There is no account yet. -/
theorem enterable_empty : Enterable ∅ := by
  refine ⟨Consistent.empty, ?_, ?_⟩
  · intro id hexists
    rw [userExists, DB.existsKey_empty] at hexists
    cases hexists
  · intro mail hsome
    rw [DB.existsKey_empty] at hsome
    cases hsome

/-- Which accounts can be entered depends on the accounts alone. -/
theorem Enterable.congr (h : Enterable db) (hnext : Consistent next)
    (hsame : ∀ family rest, Prefix.OfUser family →
      next.existsKey (key family rest) = db.existsKey (key family rest))
    (hcounter : next.existsKey lastID = db.existsKey lastID) : Enterable next := by
  refine ⟨hnext, ?_, ?_⟩
  · intro id hexists
    rw [userExists, hsame _ _ (.inr (.inl rfl))] at hexists
    exact (h.counted id hexists).congr hcounter
  · intro mail hsome
    rw [hsame _ _ (.inr (.inr rfl))] at hsome
    rw [getUserByMail_congr (hsame _ _ (.inl rfl))]
    obtain ⟨user, hread, hid⟩ := h.entered mail hsome
    exact ⟨user, hread, (hsame _ _ (.inr (.inl rfl))).trans hid⟩

/-- Nobody has the id, and nobody will: the counter has passed it. -/
def Gone (db : DB) (id : Long) : Prop :=
  Counted db id ∧ userExists db id = false

/-- The ids of users that a call assigns come from the counter. -/
def TakesDefaultId : Call → Prop
  | .savePerson _ forceID => forceID = -1
  | _ => True

/-- A user who registers gets an id that no user had. -/
theorem registered_fresh {counted : DB} {id : Long} (hassigned : Assigned db (-1) id counted)
    (hcounter : next.existsKey lastID = counted.existsKey lastID) :
    Counted next id ∧ ∀ other, Counted db other → other ≠ id ∧ Counted next other := by
  have hgenerated : generateID db = (.ok id, counted) := by
    rcases hassigned with ⟨hforced, -⟩ | ⟨-, hid⟩
    · exact absurd rfl hforced
    · exact hid
  obtain ⟨hnew, hbefore⟩ := generateID_fresh hgenerated
  refine ⟨hnew.congr hcounter, fun other hother => ?_⟩
  obtain ⟨hlt, hkept⟩ := hbefore other hother
  refine ⟨?_, hkept.congr hcounter⟩
  rintro rfl
  exact lt_irrefl _ hlt

/-- Taking a user's id and password out, with the record or without it. -/
theorem Enterable.leave (h : Enterable db) (hnext : Consistent next) {id : Long} {user : Person}
    (hfound : getUserById db id = .ok user)
    (hrecord : ∀ mail, user.email ≠ mail →
      next.existsKey (key .userMail mail) = db.existsKey (key .userMail mail))
    (hid : ∀ rest, next.existsKey (key .userUuid rest)
      = if toString user.id = rest then none else db.existsKey (key .userUuid rest))
    (hpassword : ∀ mail, next.existsKey (key .userPassword mail)
      = if user.email = mail then none else db.existsKey (key .userPassword mail))
    (hcounter : next.existsKey lastID = db.existsKey lastID) : Enterable next := by
  obtain ⟨hlisted, -, hsame⟩ := h.consistent.getUserById_eq_ok.mp hfound
  refine ⟨hnext, ?_, ?_⟩
  · intro other hexists
    rw [userExists, hid] at hexists
    split at hexists
    · cases hexists
    · exact (h.counted other hexists).congr hcounter
  · intro mail hsome
    rw [hpassword] at hsome
    split at hsome
    · cases hsome
    · rename_i hmail
      rw [getUserByMail_congr (hrecord mail hmail)]
      obtain ⟨other, hread, hlistedOther⟩ := h.entered mail hsome
      refine ⟨other, hread, ?_⟩
      rw [hid, if_neg ?_]
      · exact hlistedOther
      · intro hsameId
        rw [← hsameId, hsame, hlisted] at hlistedOther
        exact hmail (Entry.text.inj (Option.some.inj hlistedOther))

/-- The record, the id and the password of a new user. -/
theorem Enterable.registered (h : Enterable db) (hnext : Consistent next) {counted : DB}
    {id : Long}
    {user : Person} (hnormalized : user.Normalized) (hassigned : Assigned db (-1) id counted)
    (hrecord : ∀ mail, next.existsKey (key .userMail mail)
      = if user.email = mail then some (.json (PersonManager.registered user id).serializeMe)
        else db.existsKey (key .userMail mail))
    (hid : ∀ rest, next.existsKey (key .userUuid rest)
      = if toString id = rest then some (.text user.email) else db.existsKey (key .userUuid rest))
    (hpassword : ∀ mail, user.email ≠ mail →
      next.existsKey (key .userPassword mail) = db.existsKey (key .userPassword mail))
    (hcounter : next.existsKey lastID = counted.existsKey lastID) : Enterable next := by
  obtain ⟨hnew, hbefore⟩ := registered_fresh hassigned hcounter
  refine ⟨hnext, ?_, ?_⟩
  · intro other hexists
    rw [userExists, hid] at hexists
    split at hexists
    · rename_i hsame
      have hsame : id = other := by simpa using hsame
      exact hsame ▸ hnew
    · exact (hbefore other (h.counted other hexists)).2
  · intro mail hsome
    have hafter : getUserByMail next mail
        = if user.email = mail then .ok (PersonManager.registered user id)
          else getUserByMail db mail :=
      getUserByMail_of_saved (normalized_registered hnormalized id) hrecord mail
    rw [hafter]
    split
    · rename_i hmail
      refine ⟨_, rfl, ?_⟩
      rw [hid, ← hmail]
      exact if_pos rfl
    · -- the id of another account was counted before, so it is not the new one
      rename_i hmail
      rw [hpassword mail hmail] at hsome
      obtain ⟨other, hother, hlisted⟩ := h.entered mail hsome
      refine ⟨other, hother, ?_⟩
      rw [hid, if_neg ?_]
      · exact hlisted
      · have hcounted := h.counted other.id (by rw [userExists, hlisted]; rfl)
        have hne := (hbefore other.id hcounted).1
        intro hsame
        exact hne (by simpa using hsame.symm)

/-- The record of a user who is listed is written again. -/
theorem Enterable.rewritten (h : Enterable db) (hnext : Consistent next) {user : Person}
    (hnormalized : user.Normalized)
    (hrecord : ∀ mail, next.existsKey (key .userMail mail)
      = if user.email = mail then some (.json user.serializeMe)
        else db.existsKey (key .userMail mail))
    (hlisted : (next.existsKey (key .userPassword user.email)).isSome →
      db.existsKey (key .userUuid (toString user.id)) = some (.text user.email))
    (hid : ∀ rest, next.existsKey (key .userUuid rest) = db.existsKey (key .userUuid rest))
    (hpassword : ∀ mail, user.email ≠ mail →
      next.existsKey (key .userPassword mail) = db.existsKey (key .userPassword mail))
    (hcounter : next.existsKey lastID = db.existsKey lastID) : Enterable next := by
  refine ⟨hnext, ?_, ?_⟩
  · intro other hexists
    rw [userExists, hid] at hexists
    exact (h.counted other hexists).congr hcounter
  · intro mail hsome
    rw [getUserByMail_of_saved hnormalized hrecord mail]
    split
    · rename_i hmail
      subst hmail
      exact ⟨_, rfl, (hid _).trans (hlisted hsome)⟩
    · rename_i hmail
      rw [hpassword mail hmail] at hsome
      obtain ⟨other, hother, hlistedOther⟩ := h.entered mail hsome
      exact ⟨other, hother, (hid _).trans hlistedOther⟩

/-- A call whose ids come from the counter keeps the accounts. -/
theorem Enterable.effect (h : Enterable db) (hnext : Consistent next) {call : Call}
    {result : Outcome} (heffect : Effect db call result next) (hdefault : TakesDefaultId call) :
    Enterable next := by
  cases heffect with
  | kept _ hsame hcounter => exact h.congr hnext hsame hcounter
  | @registered juser forceID id user counted _ hread hfree hassigned hrecord hid hpassword
      hcounter =>
      obtain rfl : forceID = -1 := hdefault
      refine h.registered hnext (Person.normalized_of_ofJson hread) hassigned hrecord hid
        (fun mail hmail => ?_) hcounter
      rw [hpassword, if_neg hmail]
  | @updated juser newUser oldUser _ hprofile hold hrecord hid hpassword hcounter =>
      obtain ⟨hlisted, holdRecord, holdId⟩ := h.consistent.getUserById_eq_ok.mp hold
      refine h.rewritten hnext (h.consistent.normalized_updated hprofile holdRecord) hrecord
        (fun _ => hlisted) hid (fun mail hmail => ?_) hcounter
      rw [hpassword, if_neg fun hboth => hmail hboth.1]
  | @recommended _ _ rated total _ _ hrated hrecord hsame hcounter =>
      have hnormalized := (h.consistent.getUserByMail_eq_ok.mp hrated).2.2
      refine h.rewritten hnext (normalized_rated hnormalized total) hrecord (fun hsome => ?_)
        (fun rest => hsame _ rest (.inl rfl)) (fun mail _ => hsame _ mail (.inr rfl)) hcounter
      -- a password makes the user listed, and the record that is listed is the one rewritten
      rw [hsame _ _ (.inr rfl)] at hsome
      obtain ⟨other, hother, hlisted⟩ := h.entered rated.email hsome
      obtain rfl : rated = other := Except.ok.inj (hrated.symm.trans hother)
      exact hlisted
  | deleted hfound hrecord hid hpassword hcounter =>
      refine h.leave hnext hfound (fun mail hmail => ?_) hid hpassword hcounter
      rw [hrecord, if_neg hmail]
  | halfDeleted hfound hrecord hid hpassword hcounter =>
      exact h.leave hnext hfound (fun mail _ => hrecord mail) hid hpassword hcounter

/-- Only a deletion takes a user away. -/
theorem userExists_of_effect (hdb : Consistent db) {call : Call} {result : Outcome}
    (heffect : Effect db call result next) {id : Long} (hcall : call ≠ .deletePerson id)
    (hexists : userExists db id) : userExists next id := by
  have hremains : ∀ {found : Long} {user : Person}, getUserById db found = .ok user →
      (∀ rest, next.existsKey (key .userUuid rest)
        = if toString user.id = rest then none else db.existsKey (key .userUuid rest)) →
      found ≠ id → userExists next id := by
    intro found user hfound hid hne
    obtain ⟨-, -, hsame⟩ := hdb.getUserById_eq_ok.mp hfound
    rw [userExists, hid, hsame, if_neg ?_]
    · exact hexists
    · intro htext
      exact hne (by simpa using htext)
  have hother : ∀ {found : Long}, call = .deletePerson found → found ≠ id := by
    rintro found rfl rfl
    exact hcall rfl
  cases heffect with
  | kept _ hsame => rwa [userExists, hsame _ _ (.inr (.inl rfl))]
  | registered _ _ _ _ hid =>
      rw [userExists, hid]
      split
      · rfl
      · exact hexists
  | updated _ _ _ hid => rwa [userExists, hid]
  | recommended _ _ _ hsame => rwa [userExists, hsame _ _ (.inl rfl)]
  | deleted hfound _ hid => exact hremains hfound hid (hother rfl)
  | halfDeleted hfound _ hid => exact hremains hfound hid (hother rfl)

/-- An id stays gone. -/
theorem Gone.effect {call : Call} {result : Outcome} {id : Long} (h : Gone db id)
    (heffect : Effect db call result next) (hdefault : TakesDefaultId call) : Gone next id := by
  obtain ⟨hcounted, hmissing⟩ := h
  cases heffect with
  | kept _ hsame hcounter =>
      exact ⟨hcounted.congr hcounter, by rwa [userExists, hsame _ _ (.inr (.inl rfl))]⟩
  | @registered juser forceID assigned user counted _ _ _ hassigned _ hid _ hcounter =>
      obtain rfl : forceID = -1 := hdefault
      obtain ⟨hne, hkept⟩ := (registered_fresh hassigned hcounter).2 id hcounted
      refine ⟨hkept, ?_⟩
      rw [userExists, hid, if_neg ?_]
      · exact hmissing
      · intro htext
        exact hne (by simpa using htext.symm)
  | updated _ _ _ hid _ hcounter => exact ⟨hcounted.congr hcounter, by rwa [userExists, hid]⟩
  | recommended _ _ _ hsame hcounter =>
      exact ⟨hcounted.congr hcounter, by rwa [userExists, hsame _ _ (.inl rfl)]⟩
  | deleted _ _ hid _ hcounter =>
      refine ⟨hcounted.congr hcounter, ?_⟩
      rw [userExists, hid]
      split
      · rfl
      · exact hmissing
  | halfDeleted _ _ hid _ hcounter =>
      refine ⟨hcounted.congr hcounter, ?_⟩
      rw [userExists, hid]
      split
      · rfl
      · exact hmissing

/-! ## Users whom tokens name -/

/-- The record under a token is the one of a user with the id. -/
def Names (db : DB) (token : Text) (id : Long) : Prop :=
  ∃ entry, db.existsKey (key .userToken token) = some entry ∧
    entry.parse.isMember "user_token" = .ok false ∧
    (entry.parse.member "user_id" >>= Json.asLargestInt) = .ok id

/-- The tokens name existing users, and whoever can log in exists. -/
structure Signed (db : DB) : Prop where
  enterable : Enterable db
  named : ∀ token id, Names db token id → userExists db id

/-- There is no token yet. -/
theorem signed_empty : Signed ∅ := by
  refine ⟨enterable_empty, ?_⟩
  rintro token id ⟨entry, hentry, -⟩
  rw [DB.existsKey_empty] at hentry
  cases hentry

/-- Whom a token names depends on its record alone. -/
theorem names_congr
    (hsame : ∀ rest, next.existsKey (key .userToken rest) = db.existsKey (key .userToken rest))
    (token : Text) (id : Long) : Names next token id ↔ Names db token id := by
  rw [Names, Names, hsame]

/-- A token that is written names the user, and the record of the mail names nobody. -/
theorem Signed.putToken (h : Signed db) {id : Long} (hexists : userExists db id) (now : Int)
    (token userMail : Text) : Signed (putToken clock db now token userMail id) := by
  have htokens := onlyTokens_putToken clock db now token userMail id
  have husers : ∀ other, userExists (SessionManager.putToken clock db now token userMail id) other
      = userExists db other := by
    intro other
    rw [userExists, userExists, htokens.ofUser (.inr (.inl rfl))]
  refine ⟨h.enterable.congr (htokens.consistent h.enterable.consistent)
    (fun family rest hfamily => htokens.ofUser hfamily rest) htokens.counter, ?_⟩
  rintro other named ⟨entry, hentry, hkind, hid⟩
  rw [husers]
  rw [existsKey_putToken] at hentry
  split at hentry
  · cases hentry
    rw [Entry.parse, member_userRecord_id, ok_bind, Json.asLargestInt_ofLong] at hid
    cases hid
    exact hexists
  · split at hentry
    · cases hentry
      rw [Entry.parse, isMember_tokenRecord] at hkind
      cases hkind
    · exact h.named other named ⟨entry, hentry, hkind, hid⟩

/-- Calls of `PersonManager` leave the tokens alone. -/
theorem existsKey_token_exec (call : Call) (rest : Text) :
    (exec db call).2.existsKey (key .userToken rest) = db.existsKey (key .userToken rest) :=
  existsKey_exec_elsewhere call (apart_key (by simp) rest) (fun _ _ => by simp) (by simp)
    (by simp)
    (by simp)

/-- A call keeps tokens of existing users only, unless it deletes a user whom a token names. -/
theorem Signed.exec (h : Signed db) {call : Call} (hdefault : TakesDefaultId call)
    (hunnamed : ∀ id, call = .deletePerson id → ∀ token, ¬ Names db token id) :
    Signed (exec db call).2 := by
  have heffect := effect_exec h.enterable.consistent call
  refine ⟨h.enterable.effect (h.enterable.consistent.exec call) heffect hdefault, ?_⟩
  intro token id hnames
  rw [names_congr (existsKey_token_exec call)] at hnames
  refine userExists_of_effect h.enterable.consistent heffect ?_ (h.named token id hnames)
  rintro rfl
  exact hunnamed id rfl token hnames

/-- A token for an account with a password is issued to an existing user. -/
theorem Signed.saveToken (h : Signed db) {userMail : Text}
    (hpassword : (db.existsKey (key .userPassword userMail)).isSome) (now : Int) (token : Text) :
    Signed (saveToken clock db now token userMail).2 := by
  obtain ⟨user, hread, hlisted⟩ := h.enterable.entered userMail hpassword
  rw [SessionManager.saveToken, hread]
  refine h.putToken ?_ now token userMail
  rw [userExists, hlisted]
  rfl

/-- A login issues a token for an existing user. -/
theorem Signed.login (h : Signed db) (now : Int) (token userMail userPassword : Text) :
    Signed (login clock db now token userMail userPassword).2 := by
  unfold SessionManager.login
  split
  · exact h
  · rename_i entry hentry
    split
    · exact h
    · have hsaved : Signed (SessionManager.saveToken clock db now token userMail).2 :=
        h.saveToken (by rw [hentry]; rfl) now token
      split
      · rename_i e next hsave
        rwa [hsave] at hsaved
      · rename_i next hsave
        rwa [hsave] at hsaved

/-- So does a sign-in with Facebook. -/
theorem Signed.facebookLogin (h : Signed db) (now : Int) (token userMail : Text) :
    Signed (facebookLogin clock db now token userMail).2 := by
  unfold SessionManager.facebookLogin
  split
  · exact h
  · rename_i entry hentry
    have hsaved : Signed (SessionManager.saveToken clock db now token userMail).2 :=
      h.saveToken (by rw [hentry]; rfl) now token
    split
    · rename_i e next hsave
      rwa [hsave] at hsaved
    · rename_i next hsave
      rwa [hsave] at hsaved

/-- So does its answer. -/
theorem Signed.facebookAnswer (h : Signed db) (env : Environment) (userMail : Text)
    (userId : Long) :
    Signed (facebookAnswer env db userMail userId).2 := by
  have hlogin := @Signed.facebookLogin env.clock db h env.loginTime env.newToken userMail
  unfold TallerII.facebookAnswer
  split
  · rename_i e next hresult
    rwa [hresult] at hlogin
  · rename_i userToken next hresult
    rwa [hresult] at hlogin

/-- A string that is no mail is refused, or the user whom it names is written again. -/
theorem getSession_cases_of_notOfMail (clock : Clock) (now : Readings) {token : Text}
    (hnot : NotOfMail db token) :
    (∃ e, getSession clock db now token = (.error e, db)) ∨
      ∃ session : Session, Names db token session.userId ∧ getSession clock db now token
        = (.ok session,
          putToken clock db now.updated session.token session.userMail session.userId) := by
  rcases getSession_cases clock db now token with
    ⟨e, -, hthrown⟩ | ⟨session, entry, -, hentry, -, hid, hsession⟩
  · exact .inl ⟨e, hthrown⟩
  · exact .inr ⟨session, ⟨entry, hentry, hnot entry hentry, hid⟩, hsession⟩

/-- A session that is used again keeps its user. -/
theorem Signed.getSession (h : Signed db) (now : Readings) {token : Text}
    (hnot : NotOfMail db token) : Signed (getSession clock db now token).2 := by
  rcases getSession_cases_of_notOfMail clock now hnot with
    ⟨e, hthrown⟩ | ⟨session, hnames, hsession⟩
  · rw [hthrown]
    exact h
  · rw [hsession]
    exact h.putToken (h.named token _ hnames) _ _ _

/-! ## Runs -/

/-- The events of a run: the ids of users come from the counter, and only logins save tokens. -/
def Event.Ordinary : Event → Prop
  | users call => TakesDefaultId call
  | session (.savePerson _ forceID) => forceID = -1
  | session (.saveToken _ _ _) => False
  | _ => True

/-- Nobody is deleted whom a token names, and no string is presented as a token under which the
record of a mail stands. -/
def Event.Spares (db : DB) : Event → Prop
  | users (.deletePerson id) => ∀ token, ¬ Names db token id
  | session (.getSession _ token) => NotOfMail db token
  | _ => True

/-- What ordinarily happens. -/
def Ordinarily (clock : Clock) (db : DB) (event : Event) (next : DB) : Prop :=
  event.Ordinary ∧ Happens clock db event next

/-- An event that spares the users of tokens keeps the tokens. -/
theorem Signed.event (h : Signed db) {event : Event} (hstep : Ordinarily clock db event next)
    (hspares : event.Spares db) : Signed next := by
  obtain ⟨hordinary, hstep⟩ := hstep
  have hstep : event.run clock db = next := hstep
  subst hstep
  cases event with
  | users call =>
      refine h.exec hordinary ?_
      rintro id rfl
      exact hspares
  | session call =>
      cases call with
      | savePerson juser forceID =>
          have hordinary : forceID = -1 := hordinary
          exact @Signed.exec db h (.savePerson juser forceID) hordinary (by simp)
      | login now token userMail userPassword => exact h.login now token userMail userPassword
      | facebookLogin now token userMail => exact h.facebookLogin now token userMail
      | saveToken now token userMail => exact absurd hordinary id
      | getSession now token => exact h.getSession now hspares
  | facebook env httpMessage =>
      rw [Event.run]
      cases hperson : facebookPerson env httpMessage with
      | error e =>
          rw [facebookPost_of_error hperson]
          exact h
      | ok created =>
          cases hthere : userExistsMail db created.email with
          | true =>
              rw [facebookPost_of_there hperson hthere]
              split
              · exact h
              · exact h.facebookAnswer _ _ _
          | false =>
              have hsaved :=
                @Signed.exec db h (.savePerson created.serializeMe (-1)) rfl (by simp)
              rw [facebookPost_of_free hperson hthere]
              rw [PersonManager.exec, outcome] at hsaved
              split
              · rename_i e next hsave
                rwa [hsave] at hsaved
              · rename_i userId next hsave
                rw [hsave] at hsaved
                exact hsaved.facebookAnswer _ _ _

/-- A run that spares the users of tokens keeps tokens of existing users only. -/
theorem Signed.of_run {start : DB} {events : List Event} (hstart : Signed start)
    (h : Run (Guarded (Ordinarily clock) fun db event => event.Spares db) start events db) :
    Signed db := by
  induction h with
  | nil => exact hstart
  | snoc _ hlast ih => exact ih.event hlast.1 hlast.2

/-- What ordinarily happens registers with the next id. -/
theorem Event.takesDefaultId {event : Event} (h : event.Ordinary) {call : Call}
    (hmakes : event.Makes db call) : TakesDefaultId call := by
  cases hmakes with
  | users => exact h
  | session => exact h
  | facebook => rfl

/-- An id that is gone stays gone in a run. -/
theorem Gone.of_run {start : DB} {events : List Event} {id : Long} (hstart : Consistent start)
    (hgone : Gone start id) (h : Run (Ordinarily clock) start events db) : Gone db id := by
  suffices hboth : Consistent db ∧ Gone db id from hboth.2
  induction h with
  | nil => exact ⟨hstart, hgone⟩
  | snoc _ hlast ih =>
      obtain ⟨hdb, hgone⟩ := ih
      obtain ⟨hordinary, hstep⟩ := hlast
      refine ⟨hstep.consistent hdb, ?_⟩
      rcases hstep.effect hdb with ⟨-, htokens⟩ | ⟨call, result, hmakes, -, heffect⟩
      · refine ⟨hgone.1.congr htokens.counter, ?_⟩
        rw [userExists, htokens.ofUser (.inr (.inl rfl))]
        exact hgone.2
      · exact hgone.effect heffect (Event.takesDefaultId hordinary hmakes)

/-- A user who was deleted is gone. -/
theorem gone_of_deletePerson (h : Enterable db) {id : Long}
    (hreturned : exec db (.deletePerson id) = (.ok none, next)) : Gone next id := by
  have heffect : Effect db (.deletePerson id) (.ok none) next := by
    have heffect := effect_exec h.consistent (.deletePerson id)
    rwa [hreturned] at heffect
  cases heffect with
  | kept hthrown =>
      obtain ⟨e, he⟩ := hthrown trivial
      cases he
  | recommended hcall => exact absurd trivial hcall
  | @deleted _ user _ hfound _ hid _ hcounter =>
      obtain ⟨hlisted, -, hsame⟩ := h.consistent.getUserById_eq_ok.mp hfound
      refine ⟨(h.counted id ?_).congr hcounter, ?_⟩
      · rw [userExists, hlisted]
        rfl
      · rw [userExists, hid, hsame, if_pos rfl]
        rfl

/-- In runs that delete nobody whom a token names and present no mail, a token that is accepted is
the one of an existing user, and of none who was deleted before. -/
theorem getSession_of_existing :
    (∀ events db, Run (Guarded (Ordinarily clock) fun db event => event.Spares db) ∅ events db →
      ∀ now token session, NotOfMail db token → (getSession clock db now token).1 = .ok session →
        userExists db session.userId) ∧
    (∀ before moment id following after db,
      Run (Guarded (Ordinarily clock) fun db event => event.Spares db) ∅ before moment →
      exec moment (.deletePerson id) = (.ok none, following) →
      (∀ token, ¬ Names moment token id) →
      Run (Guarded (Ordinarily clock) fun db event => event.Spares db) following after db →
      ∀ now token session, NotOfMail db token → (getSession clock db now token).1 = .ok session →
        session.userId ≠ id) := by
  have hexists : ∀ db, Signed db → ∀ now token session, NotOfMail db token →
      (getSession clock db now token).1 = .ok session → userExists db session.userId := by
    intro db hsigned now token session hnot hsession
    rcases getSession_cases_of_notOfMail clock now hnot with
      ⟨e, hthrown⟩ | ⟨returned, hnames, hreturned⟩
    · rw [hthrown] at hsession
      cases hsession
    · rw [hreturned] at hsession
      cases hsession
      exact hsigned.named token _ hnames
  constructor
  · intro events db hrun
    exact hexists db (signed_empty.of_run hrun)
  · intro before moment id following after db hbefore hdelete hunnamed hafter now token
      session hnot
      hsession
    have hmoment := signed_empty.of_run hbefore
    have hstep : Ordinarily clock moment (.users (.deletePerson id)) following := by
      refine ⟨trivial, ?_⟩
      show (exec moment (.deletePerson id)).2 = following
      rw [hdelete]
    have hfollowing := hmoment.event hstep hunnamed
    -- an id that was deleted is never given out again
    have hgone := (gone_of_deletePerson hmoment.enterable hdelete).of_run
      hfollowing.enterable.consistent hafter.of_guarded
    rintro rfl
    have hthere := hexists db (hfollowing.of_run hafter) now token session hnot hsession
    rw [hgone.2] at hthere
    cases hthere

/-- A user registers and logs in. -/
def entered : DB :=
  Event.run stoppedClock (savePerson ∅ (registration ['a'] ['p']) (-1)).2
    (.session (.login 0 ['t'] ['a'] ['p']))

/-- The token of a user who was deleted is still accepted. -/
theorem getSession_after_deletePerson :
    Run (Ordinarily stoppedClock) ∅ [.users (.savePerson (registration ['a'] ['p']) (-1)),
        .session (.login 0 ['t'] ['a'] ['p']), .users (.deletePerson 1)]
        (deletePerson entered 1).2 ∧
      (getSession stoppedClock (deletePerson entered 1).2 ⟨0, 0, 0⟩ ['t']).1
        = .ok { token := ['t'], userMail := ['a'], lastTime := 0, userId := 1 } ∧
      userExists (deletePerson entered 1).2 1 = false := by
  have hregistered : Run (Ordinarily stoppedClock) ∅
      [.users (.savePerson (registration ['a'] ['p']) (-1))]
      (savePerson ∅ (registration ['a'] ['p']) (-1)).2 := Run.nil.snoc ⟨rfl, rfl⟩
  have hentered : Run (Ordinarily stoppedClock) ∅
      [.users (.savePerson (registration ['a'] ['p']) (-1)),
        .session (.login 0 ['t'] ['a'] ['p'])]
      entered := hregistered.snoc ⟨trivial, rfl⟩
  exact ⟨hentered.snoc ⟨trivial, rfl⟩, by decide, by decide⟩

/-- Two users register. -/
def beforeDeletion : DB :=
  (savePerson (savePerson ∅ (registration ['a'] ['p']) (-1)).2 (registration ['b'] ['q']) (-1)).2

/-- Nobody logged in yet. -/
theorem not_names_beforeDeletion (token : Text) (id : Long) :
    ¬ Names beforeDeletion token id := by
  rintro ⟨entry, hentry, -⟩
  rw [beforeDeletion, existsKey_savePerson (apart_key (by simp) token),
    existsKey_savePerson (apart_key (by simp) token), DB.existsKey_empty] at hentry
  cases hentry

/-- One of the users is deleted, and then the other one logs in. -/
def enteredLater : DB :=
  Event.run stoppedClock (deletePerson beforeDeletion 2).2 (.session (.login 0 ['t'] ['a'] ['p']))

/-- The token is the one of an existing user, who is not the one that was deleted. -/
theorem getSession_of_existing_login :
    (getSession stoppedClock enteredLater ⟨0, 0, 0⟩ ['t']).1
        = .ok { token := ['t'], userMail := ['a'], lastTime := 0, userId := 1 } ∧
      ∀ session, (getSession stoppedClock enteredLater ⟨0, 0, 0⟩ ['t']).1 = .ok session →
        userExists enteredLater session.userId ∧ session.userId ≠ 2 := by
  have hdefault (juser : Json) : (Event.users (.savePerson juser (-1))).Ordinary := rfl
  have hgone : (Event.users (.deletePerson 2)).Ordinary := trivial
  have hfirst : Run (Guarded (Ordinarily stoppedClock) fun db event => event.Spares db) ∅
      [.users (.savePerson (registration ['a'] ['p']) (-1))]
      (savePerson ∅ (registration ['a'] ['p']) (-1)).2 :=
    Run.nil.snoc ⟨⟨hdefault _, rfl⟩, trivial⟩
  have hbefore : Run (Guarded (Ordinarily stoppedClock) fun db event => event.Spares db) ∅
      [.users (.savePerson (registration ['a'] ['p']) (-1)),
        .users (.savePerson (registration ['b'] ['q']) (-1))] beforeDeletion :=
    hfirst.snoc ⟨⟨hdefault _, rfl⟩, trivial⟩
  have hdelete : exec beforeDeletion (.deletePerson 2)
      = (.ok none, (deletePerson beforeDeletion 2).2) := Prod.ext (by decide) rfl
  have hunnamed : ∀ token, ¬ Names beforeDeletion token 2 :=
    fun token => not_names_beforeDeletion token 2
  have hlogin : Guarded (Ordinarily stoppedClock) (fun db event => event.Spares db)
      (deletePerson beforeDeletion 2).2 (.session (.login 0 ['t'] ['a'] ['p'])) enteredLater :=
    ⟨⟨trivial, rfl⟩, trivial⟩
  have hall := (hbefore.snoc ⟨⟨hgone, rfl⟩, hunnamed⟩).snoc hlogin
  have hnot : NotOfMail enteredLater ['t'] := by
    intro entry hentry
    have hmember : (enteredLater.existsKey (key .userToken ['t'])).map
        (fun entry => entry.parse.isMember "user_token") = some (.ok false) := by decide
    rw [hentry] at hmember
    exact Option.some.inj hmember
  refine ⟨by decide, fun session hsession => ⟨?_, ?_⟩⟩
  · exact getSession_of_existing.1 _ _ hall ⟨0, 0, 0⟩ ['t'] session hnot hsession
  · exact getSession_of_existing.2 _ _ 2 _ _ _ hbefore hdelete hunnamed (Run.nil.snoc hlogin)
      ⟨0, 0, 0⟩ ['t'] session hnot hsession

end TallerII
