import TallerII.Steps

/-!
# Sessions

`SessionManager` keeps two kinds of records under one family of keys: under a mail the token that
was issued last, and under a token the user it was issued to. The clock, its readings and the
tokens that `getNewToken` draws are arguments.
-/

namespace TallerII.SessionManager

open Manager Lib

/-- What the C library makes of times: `strftime` of the local time, and `mktime` of what
`strptime` reads. -/
structure Clock where
  format : Int → Text
  read : Text → Int

/-- `Session`. -/
structure Session where
  token : Text
  userMail : Text
  lastTime : Int
  userId : Long
deriving Repr, DecidableEq

variable (clock : Clock)

/-- The record under a mail. -/
def tokenRecord (now : Int) (token : Text) : Json :=
  Json.ofMembers [("user_token", .string token), ("last_used", .string (clock.format now))]

/-- The record under a token. -/
def userRecord (now : Int) (userMail : Text) (userId : Long) : Json :=
  Json.ofMembers [
    ("user_mail", .string userMail),
    ("user_id", .ofLong userId),
    ("last_used", .string (clock.format now))]

/-- The writes of `saveToken` and `updateToken`. -/
def putToken (db : DB) (now : Int) (token userMail : Text) (userId : Long) : DB :=
  let db := db.putKey (key .userToken userMail) (.json (tokenRecord clock now token))
  db.putKey (key .userToken token) (.json (userRecord clock now userMail userId))

/-- `saveToken`. -/
def saveToken (db : DB) (now : Int) (token userMail : Text) : Except Exn Unit × DB :=
  match getUserByMail db userMail with
  | .error e => (.error e, db)
  | .ok user => (.ok (), putToken clock db now token userMail user.id)

/-- `login`, with the token that is drawn. -/
def login (db : DB) (now : Int) (token userMail userPassword : Text) : Except Exn Text × DB :=
  match db.existsKey (key .userPassword userMail) with
  | none => (.error (.userNotFoundMail userMail), db)
  | some password =>
    if password.asText ≠ userPassword then (.error .invalidPassword, db)
    else
      match saveToken clock db now token userMail with
      | (.error e, db) => (.error e, db)
      | (.ok _, db) => (.ok token, db)

/-- `facebookLogin`, with the token that is drawn. -/
def facebookLogin (db : DB) (now : Int) (token userMail : Text) : Except Exn Text × DB :=
  match db.existsKey (key .userPassword userMail) with
  | none => (.error (.userNotFoundMail userMail), db)
  | some _ =>
    match saveToken clock db now token userMail with
    | (.error e, db) => (.error e, db)
    | (.ok _, db) => (.ok token, db)

/-- `getUserId`. -/
def getUserId (db : DB) (token : Text) : Except Exn Long := do
  (← (db.getKey (key .userToken token)).parse.member "user_id").asLargestInt

/-- `tokenExpired`: more than 14400 seconds ago. -/
def tokenExpired (now : Int) (lastTimeUsed : Text) : Bool :=
  14400 < now - clock.read lastTimeUsed

/-- `updateToken`. -/
def updateToken (db : DB) (now : Int) (token userMail : Text) : Except Exn Unit × DB :=
  match db.existsKey (key .userToken token) with
  | none => (.error .invalidToken, db)
  | some tokenInformation =>
    let userId : Except Exn Long := do (← tokenInformation.parse.member "user_id").asLargestInt
    match userId with
    | .error e => (.error e, db)
    | .ok userId => (.ok (), putToken clock db now token userMail userId)

/-- The three readings of the clock during one `getSession`. -/
structure Readings where
  checked : Int
  updated : Int
  returned : Int

/-- `getSession`. -/
def getSession (db : DB) (now : Readings) (token : Text) : Except Exn Session × DB :=
  match db.existsKey (key .userToken token) with
  | none => (.error .invalidToken, db)
  | some tokenInformation =>
    let userMail : Except Exn Text := do
      let lastTimeUsed ← (← tokenInformation.parse.member "last_used").asString
      if tokenExpired clock now.checked lastTimeUsed then throw .tokenExpired
      (← tokenInformation.parse.member "user_mail").asString
    match userMail with
    | .error e => (.error e, db)
    | .ok userMail =>
      match updateToken clock db now.updated token userMail with
      | (.error e, db) => (.error e, db)
      | (.ok _, db) =>
        match getUserId db token with
        | .error e => (.error e, db)
        | .ok userId => (.ok { token, userMail, lastTime := now.returned, userId }, db)

/-! ## The two kinds of records -/

/-- The record of a token names the mail. -/
@[simp] theorem member_userRecord_mail (now : Int) (userMail : Text) (userId : Long) :
    (userRecord clock now userMail userId).member "user_mail" = .ok (.string userMail) := by
  simp [userRecord, Json.assigned]

/-- It names the user. -/
@[simp] theorem member_userRecord_id (now : Int) (userMail : Text) (userId : Long) :
    (userRecord clock now userMail userId).member "user_id" = .ok (.ofLong userId) := by
  simp [userRecord, Json.assigned]

/-- It holds the time of the last use. -/
@[simp] theorem member_userRecord_lastUsed (now : Int) (userMail : Text) (userId : Long) :
    (userRecord clock now userMail userId).member "last_used"
      = .ok (.string (clock.format now)) := by
  simp [userRecord, Json.assigned]

/-- The record of a mail names a token. -/
@[simp] theorem isMember_tokenRecord (now : Int) (token : Text) :
    (tokenRecord clock now token).isMember "user_token" = .ok true := rfl

/-- The record of a token names none. -/
@[simp] theorem isMember_userRecord (now : Int) (userMail : Text) (userId : Long) :
    (userRecord clock now userMail userId).isMember "user_token" = .ok false := rfl

/-- The record of a mail names neither a mail nor an id. -/
@[simp] theorem member_tokenRecord_mail (now : Int) (token : Text) :
    (tokenRecord clock now token).member "user_mail" = .ok .null := by
  simp [tokenRecord, Json.assigned]

/-- The record of a mail names no user. -/
@[simp] theorem member_tokenRecord_id (now : Int) (token : Text) :
    (tokenRecord clock now token).member "user_id" = .ok .null := by
  simp [tokenRecord, Json.assigned]

/-- It holds the time of the last use. -/
@[simp] theorem member_tokenRecord_lastUsed (now : Int) (token : Text) :
    (tokenRecord clock now token).member "last_used" = .ok (.string (clock.format now)) := by
  simp [tokenRecord, Json.assigned]

variable {db next : DB}

/-- The two records that are written for a token. -/
theorem existsKey_putToken (now : Int) (token userMail : Text) (userId : Long) (rest : Text) :
    (putToken clock db now token userMail userId).existsKey (key .userToken rest)
      = if token = rest then some (.json (userRecord clock now userMail userId))
        else if userMail = rest then some (.json (tokenRecord clock now token))
        else db.existsKey (key .userToken rest) := by
  simp [putToken]

/-- A token that was written leads to its user. -/
@[simp] theorem getUserId_putToken (now : Int) (token userMail : Text) (userId : Long) :
    getUserId (putToken clock db now token userMail userId) token = .ok userId := by
  simp [getUserId, DB.getKey, existsKey_putToken, Entry.parse]

/-- `getSession` of a record that holds a mail and an id, unless it expired. -/
theorem getSession_of_record (now : Readings) {token userMail : Text} {userId : Long}
    {entry : Entry} {mail id : Json}
    (hentry : db.existsKey (key .userToken token) = some entry)
    (hmail : entry.parse.member "user_mail" = .ok mail) (hmailText : mail.asString = .ok userMail)
    (hid : entry.parse.member "user_id" = .ok id) (hidLong : id.asLargestInt = .ok userId) :
    (∃ e, getSession clock db now token = (.error e, db)) ∨
      getSession clock db now token
        = (.ok { token, userMail, lastTime := now.returned, userId },
          putToken clock db now.updated token userMail userId) := by
  have hupdate : updateToken clock db now.updated token userMail
      = (.ok (), putToken clock db now.updated token userMail userId) := by
    simp [updateToken, hentry, hid, hidLong]
  simp only [getSession, hentry]
  split
  · exact .inl ⟨_, rfl⟩
  · rename_i read hread
    simp only [bind_eq_ok, check_eq_ok, hmail] at hread
    obtain ⟨_, -, _, -, -, _, hsame, htext⟩ := hread
    cases hsame
    rw [hmailText] at htext
    cases htext
    right
    rw [hupdate]
    simp only [getUserId_putToken]

/-- `getSession` of a record with the time of the last use, when times are read as they were
written. -/
theorem getSession_of_lastUsed (now : Readings) {token userMail : Text} {userId : Long}
    {lastUsed : Int} {entry : Entry} {mail id : Json}
    (hclock : clock.read (clock.format lastUsed) = lastUsed)
    (hentry : db.existsKey (key .userToken token) = some entry)
    (hlastUsed : entry.parse.member "last_used" = .ok (.string (clock.format lastUsed)))
    (hmail : entry.parse.member "user_mail" = .ok mail) (hmailText : mail.asString = .ok userMail)
    (hid : entry.parse.member "user_id" = .ok id) (hidLong : id.asLargestInt = .ok userId) :
    getSession clock db now token
      = if now.checked - lastUsed ≤ 14400 then
          (.ok { token, userMail, lastTime := now.returned, userId },
            putToken clock db now.updated token userMail userId)
        else (.error .tokenExpired, db) := by
  have hupdate : updateToken clock db now.updated token userMail
      = (.ok (), putToken clock db now.updated token userMail userId) := by
    simp [updateToken, hentry, hid, hidLong]
  have hread : (do
      let lastTimeUsed ← (← entry.parse.member "last_used").asString
      if tokenExpired clock now.checked lastTimeUsed then throw .tokenExpired
      (← entry.parse.member "user_mail").asString : Except Exn Text)
        = if now.checked - lastUsed ≤ 14400 then .ok userMail else .error .tokenExpired := by
    rw [hlastUsed, hmail]
    show (if tokenExpired clock now.checked (clock.format lastUsed) then _ else _) = _
    rw [tokenExpired, hclock]
    by_cases hlate : 14400 < now.checked - lastUsed
    · rw [if_pos (by simpa using hlate), if_neg (by omega)]
      rfl
    · rw [if_neg (by simpa using hlate), if_pos (by omega)]
      exact hmailText
  simp only [getSession, hentry, hread]
  by_cases hrecent : now.checked - lastUsed ≤ 14400
  · rw [if_pos hrecent, if_pos hrecent]
    simp only [hupdate, getUserId_putToken]
  · rw [if_neg hrecent, if_neg hrecent]

end TallerII.SessionManager
