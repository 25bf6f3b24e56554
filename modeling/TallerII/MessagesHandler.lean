import TallerII.Handlers

/-!
# The handler of messages

`MessagesHandler`: reading a window of a conversation, which marks messages as received, and
sending a message. The window counts messages from the newest one.
-/

namespace TallerII.MessagesHandler

open Handler PersonManager MessagesManager SessionManager

/-- `FIRST_INDEX`. -/
def firstIndex : Int32 := 1

/-- `MAX_CANT`. -/
def maxCant : Int32 := 10

/-- `getToUserFromQueryParams`. -/
def getToUserFromQueryParams (queryParams : Text) : Except Exn Long :=
  getIdFromQueryParams queryParams "user".toList

/-- An `int` of the query, or 0 when its name does not occur. -/
def getIndexFromQueryParamsIfExists (queryParams parameter : Text) : Except Exn Int32 :=
  match find parameter queryParams with
  | none => .ok 0
  | some _ =>
    numeric "Not a numeric parameter" (getParameterFromQueryParams queryParams parameter >>= stoi)

/-- `getFirstFromQueryParamsIfExists`. -/
def getFirstFromQueryParamsIfExists (queryParams : Text) : Except Exn Int32 :=
  getIndexFromQueryParamsIfExists queryParams "first".toList

/-- `getLastFromQueryParamsIfExists`. -/
def getLastFromQueryParamsIfExists (queryParams : Text) : Except Exn Int32 :=
  getIndexFromQueryParamsIfExists queryParams "last".toList

/-! ## Windows -/

/-- An `unsigned long`. -/
def unsigned (value : Int) : Nat :=
  (value % 2 ^ 64).toNat

/-- The messages that a loop with an index from `i` on accesses at `i - 1`, for a number of turns.
-/
def visit (messages : List Message) : Nat → Nat → Except Exn (List Message)
  | _, 0 => .ok []
  | 0, _ => .error .undefinedBehaviour
  | i + 1, turns + 1 =>
    match messages[i]? with
    | none => .error .undefinedBehaviour
    | some message => do
      let rest ← visit messages (i + 2) turns
      return message :: rest

/-- The messages of a window, and those that are deleted. -/
structure Window where
  messagesToReturn : List Message
  deleted : List Message

/-- `doTruncate`. -/
def doTruncate (messages : List Message) (first last : Int32) : Except Exn Window := do
  let size := messages.length
  let lastParameter := unsigned (size - first.toInt + 1)
  let firstParameter := unsigned (size - last.toInt + 1)
  let newer ← visit messages 1 (unsigned (firstParameter - 1))
  let messagesToReturn ← visit messages firstParameter (lastParameter + 1 - firstParameter)
  let afterLast := unsigned (lastParameter + 1)
  let older ← visit messages afterLast (size + 1 - afterLast)
  return { messagesToReturn, deleted := newer ++ older }

/-- `truncateMessages`. -/
def truncateMessages (messages : List Message) (queryParams : Text) : Except Exn Window := do
  let firstParam ← getFirstFromQueryParamsIfExists queryParams
  let lastParam ← getLastFromQueryParamsIfExists queryParams
  if firstParam < 0 ∨ lastParam < 0 then
    throw (.invalidRequest "index must be greater than 0".toList)
  let first := if firstParam ≠ 0 then firstParam else firstIndex
  let last ←
    if lastParam ≠ 0 then pure lastParam else RecommendationsManager.addInt firstParam maxCant
  if last < first then
    throw (.invalidRequest "first can not be greater than last".toList)
  let last := if messages.length < last.toInt then Int32.ofInt messages.length else last
  doTruncate messages first last

/-! ## The methods -/

/-- `buildJsonResponse`. -/
def buildJsonResponse (messages : List Message) (totalCount : Nat) : Json :=
  Json.ofMembers (
    ("metadata", Json.ofMembers [
      ("count", .int messages.length), ("total_count", .int totalCount)]) ::
    Json.appendedMember "messages" (messages.map Message.serializeMe))

/-- `handleGetRequest`. -/
def handleGetRequest (session : Option Session) (httpMessage : HttpMessage) (url : Text) :
    Action Response :=
  Action.handling (do
    let fromUserId ← Action.ofExcept (getUserIdFromUrl url)
    let sessionUserId ← Action.ofExcept (getUserId session)
    Action.ofExcept (require (Security.hasPermissionToReadMessage sessionUserId fromUserId))
    let toUserId ← Action.ofExcept (getToUserFromQueryParams httpMessage.queryString)
    let messages ← Action.query (PersonManager.getMessages · fromUserId toUserId)
    let window ← Action.ofExcept (truncateMessages messages httpMessage.queryString)
    Action.onStore fun db =>
      setMessagesAsReceived db fromUserId toUserId window.messagesToReturn
    let messagesAsJson := buildJsonResponse window.messagesToReturn messages.length
    return (({} : Response).setBody messagesAsJson.toStyledString).setSuccessfulHeader) answered

variable (env : Environment)

/-- `sendNotification`, with the text of the saved message. -/
def sendNotification (savedMessage : Text) : Action Unit :=
  Action.handling (Action.query fun db => do
    let root := (env.reader savedMessage).getD .null
    let fromUserId ← (← root.member "from").asLargestInt
    let toUserId ← (← root.member "to").asLargestInt
    let message ← root.stringMember "message"
    let timestamp ← root.stringMember "timestamp"
    let token ← getNotificationTokenByUserId db toUserId
    let request ← NotificationSender.buildMessageRequest env fromUserId toUserId message timestamp
      token
    NotificationSender.sendNotification env request) ContactsHandler.withoutToken

/-- `handlePutRequest`. -/
def handlePutRequest (session : Option Session) (httpMessage : HttpMessage) (_ : Text) :
    Action Response :=
  Action.handling (do
    let parsedBody ← Action.ofExcept (parseBody env (requestBody httpMessage))
    Action.ofExcept (checkMember parsedBody "from" "Missing from user")
    Action.ofExcept (checkMember parsedBody "to" "Missing to user")
    Action.ofExcept (checkMember parsedBody "message" "Missing message")
    let userId ← Action.ofExcept (parsedBody.member "from" >>= Json.asLargestInt)
    let sessionUserId ← Action.ofExcept (getUserId session)
    Action.ofExcept (require (Security.hasPermissionToSendMessage sessionUserId userId))
    let savedMessage ← Action.onStore fun db =>
        PersonManager.saveMessage db env.timestamp parsedBody
    sendNotification env savedMessage
    return (({} : Response).setSuccessfulHeader).setBody savedMessage) answered

/-- `MessagesHandler`. -/
def handler : Handler where
  handleGetRequest := handleGetRequest
  handlePutRequest := handlePutRequest env
  handleDeleteRequest := notImplemented
  handlePostRequest := postNotImplemented

end TallerII.MessagesHandler
