import TallerII.Handler

/-!
# Notifications

`NotificationSender`: the command that hands a notification to Firebase, and running it.
-/

namespace TallerII.NotificationSender

open Handler

variable (env : Environment)

/-- A quote inside the quoted argument of a command. -/
def quote : Text :=
  ['\\', '"']

/-- A member of a JSON document inside the quoted argument: its name and a colon. -/
def memberName (name : String) : Text :=
  quote ++ name.toList ++ quote ++ [':']

/-- A string of a JSON document inside the quoted argument. -/
def quoted (text : Text) : Text :=
  quote ++ text ++ quote

/-- `buildCommonRequest`. -/
def buildCommonRequest (data token : Text) : Except Exn Text := do
  let postCommand := "curl -X POST".toList
  let authorizationKey ← configured env "firebaseAuthorizationKey"
  let header := "--header \"Authorization: key=".toList ++ authorizationKey ++ ['"', ' '] ++
    "--header \"Content-Type: application/json\"".toList
  let url ← configured env "firebaseUrl"
  let body := ['"', '\x7b'] ++ memberName "to" ++ quoted token ++ [','] ++ memberName "data" ++
    data ++ ['\x7d', '"']
  return postCommand ++ [' '] ++ header ++ [' '] ++ url ++ " -d ".toList ++ body

/-- `buildMessageRequest`. -/
def buildMessageRequest (fromUserId toUserId : Long) (message timestamp token : Text) :
    Except Exn Text :=
  buildCommonRequest env (
    ['\x7b'] ++ memberName "mensaje" ++ ['\x7b'] ++
      memberName "from" ++ toString fromUserId ++ [','] ++
      memberName "message" ++ quoted message ++ [','] ++
      memberName "timestamp" ++ quoted timestamp ++ [','] ++
      memberName "to" ++ toString toUserId ++ ['\x7d', '\x7d']) token

/-- `buildContactRequest`. -/
def buildContactRequest (fromUserId toUserId : Long) (name token : Text) : Except Exn Text :=
  buildCommonRequest env (
    ['\x7b'] ++ memberName "solicitud" ++ ['\x7b'] ++
      memberName "from" ++ toString fromUserId ++ [','] ++
      memberName "fromNombre" ++ quoted name ++ [','] ++
      memberName "toId" ++ toString toUserId ++ ['\x7d', '\x7d']) token

/-- `performRequest`. The dummy server answers with nothing. -/
def performRequest (request : Text) : Except Exn Text := do
  let dummyServerEnabled ← configured env "dummyServerEnabled"
  if dummyServerEnabled = "true".toList then return []
  match env.popen (cString request) with
  | none => .error (.runtimeError "Failed request to Firebase")
  | some result => return result

/-- `sendNotification`. -/
def sendNotification (request : Text) : Except Exn Unit := do
  let _ ← performRequest env request
  return ()

end TallerII.NotificationSender
