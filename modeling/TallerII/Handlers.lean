import TallerII.Notifications
import TallerII.Queries

/-!
# The handlers

One handler for each kind of URL, each with its four methods: users, pictures, contacts,
recommendations, conversations, notification tokens and the two logins. Messages have a module of
their own (`MessagesHandler`).
-/

namespace TallerII

open Handler Manager PersonManager SessionManager

variable (env : Environment)

/-- A method that is not implemented. -/
def Handler.notImplemented (_ : Option Session) (_ : HttpMessage) (_ : Text) : Action Response :=
  return getNotImplementedResponse

/-- `handlePostRequest` where it is not implemented. -/
def Handler.postNotImplemented (_ : Option Session) (_ : HttpMessage) : Action Response :=
  return getNotImplementedResponse

namespace UsersHandler

/-- The body with the id of a user. -/
def idBody (id : Long) : Text :=
  (Json.ofMembers [("id", .ofLong id)]).toStyledString

/-- The exceptions that `handlePostRequest` catches. -/
def rejected (e : Exn) : Except Exn Response :=
  match e with
  | .userAlreadyExists =>
    .ok ((({} : Response).setConflictHeader).setErrorBody (e.what.getD []))
  | .invalidRequest details => .ok (badRequest details)
  | e => .error e

/-- `handlePostRequest`. -/
def handlePostRequest (_ : Option Session) (httpMessage : HttpMessage) : Action Response :=
  Action.handling (do
    let parsedBody ← Action.ofExcept (parseBody env (requestBody httpMessage))
    let id ← Action.onStore fun db => savePerson db parsedBody (-1)
    return (({} : Response).setSuccessfulHeader).setBody (idBody id)) rejected

/-- `handleGetRequest`. -/
def handleGetRequest (_ : Option Session) (_ : HttpMessage) (url : Text) : Action Response :=
  Action.handling (do
    let userId ← Action.ofExcept (getUserIdFromUrl url)
    let person ← Action.query (getUserById · userId)
    let recommendations ← Action.query
      (RecommendationsManager.getRecommendationsAsJson · userId)
    let body ← Action.ofExcept
      (({ person with password := [] } : Person).serializeMe.setMember "recommendations"
        recommendations)
    return (({} : Response).setSuccessfulHeader).setBody body.toStyledString) answered

/-- `handleDeleteRequest`. -/
def handleDeleteRequest (session : Option Session) (_ : HttpMessage) (url : Text) :
    Action Response :=
  Action.handling (do
    let userId ← Action.ofExcept (getUserIdFromUrl url)
    let sessionUserId ← Action.ofExcept (getUserId session)
    Action.ofExcept (require (Security.hasPermissionToDeleteUser sessionUserId userId))
    Action.onStore fun db => deletePerson db userId
    return ({} : Response).setSuccessfulHeader) answered

/-- `handlePutRequest`. The id of the URL and the permission are checked outside of the `try`. -/
def handlePutRequest (session : Option Session) (httpMessage : HttpMessage) (url : Text) :
    Action Response := do
  let userId ← Action.ofExcept (getUserIdFromUrl url)
  let sessionUserId ← Action.ofExcept (getUserId session)
  Action.ofExcept (require (Security.hasPermissionToEdit sessionUserId userId))
  Action.handling (do
    let parsedBody ← Action.ofExcept (parseBody env (requestBody httpMessage))
    let parsedBody ← Action.ofExcept (parsedBody.setMember "id" (.ofLong userId))
    let id ← Action.onStore fun db => updateUser db parsedBody
    return (({} : Response).setSuccessfulHeader).setBody (idBody id)) answered

/-- `UsersHandler`. Registering and viewing users is public. -/
def handler : Handler where
  postPublic := true
  getPublic := true
  handleGetRequest := handleGetRequest
  handlePutRequest := handlePutRequest env
  handleDeleteRequest := handleDeleteRequest
  handlePostRequest := handlePostRequest env

end UsersHandler

namespace PictureHandler

/-- `getFilePath`. -/
def getFilePath (id : Long) : Except Exn Text := do
  let imgFolder ← configured env "imgDir"
  return imgFolder ++ toString id ++ ".jpeg".toList

/-- `existsPictureForId`. -/
def existsPictureForId (id : Long) : Action Bool := do
  let path ← Action.ofExcept (getFilePath env id)
  ExceptT.mk fun server => (.ok (server.files (cString path)).isSome, server)

/-- `deletePicture`: `remove` fails when there is no file. -/
def deletePicture (id : Long) : Action Unit := do
  let path ← Action.ofExcept (getFilePath env id)
  ExceptT.mk fun server =>
    match server.files (cString path) with
    | none =>
      (.error (.errorDeletingFile
        ("An error has occurred trying to delete file ".toList ++ path)), server)
    | some _ =>
      (.ok (), { server with files := Function.update server.files (cString path) none })

/-- The loop of `savePicture` over the lines before the picture: how many characters it passes. It
ends after four lines or after 200 characters, whichever comes first, and reads what stands in
memory behind the body when the body is shorter. -/
def skipHeader : Nat → Nat → Text → Except Exn Nat
  | 0, _, _ => .ok 0
  | _, 4, _ => .ok 0
  | _, _, [] => .error .undefinedBehaviour
  | limit + 1, lineBreaks, c :: body => do
    let charactersCounter ← skipHeader limit
      (if c = '\n' then lineBreaks + 1 else lineBreaks) body
    return charactersCounter + 1

/-- `savePicture`. The count of written characters is an unsigned difference. -/
def savePicture (id : Long) (body : Text) (size : Nat) : Action Unit := do
  let path ← Action.ofExcept (getFilePath env id)
  let charactersCounter ← Action.ofExcept (skipHeader 200 0 body)
  let count : Nat := (((size : Int) - charactersCounter - 4) % 2 ^ 64).toNat
  let picture := body.drop charactersCounter
  if picture.length < count then throw .undefinedBehaviour
  ExceptT.mk fun server =>
    (.ok (), { server with
      files := Function.update server.files (cString path) (some (picture.take count)) })

/-- `buildGetPictureResponse`. -/
def buildGetPictureResponse (id : Long) : Action Response := do
  let path ← Action.ofExcept (getFilePath env id)
  ExceptT.mk fun server =>
    match server.files (cString path) with
    | none => (.error (.pictureNotFound "Cannot find requested picture".toList), server)
    | some [] => (.error (.invalidRequest "Failed to open requested picture".toList), server)
    | some picture =>
      (.ok ((({} : Response).setSuccessfulHeader).setBinaryBody picture picture.length
        "image/jpeg".toList), server)

/-- The exceptions that `handleGetRequest` catches. -/
def notFound (e : Exn) : Except Exn Response :=
  match e with
  | .invalidRequest details => .ok (badRequest details)
  | .pictureNotFound details => .ok ((({} : Response).setNotFoundHeader).setErrorBody details)
  | e => .error e

/-- `handleGetRequest`. -/
def handleGetRequest (_ : Option Session) (_ : HttpMessage) (url : Text) : Action Response :=
  Action.handling (do
    let userId ← Action.ofExcept (getUserIdFromUrl url)
    buildGetPictureResponse env userId) notFound

/-- `handleDeleteRequest`. -/
def handleDeleteRequest (session : Option Session) (_ : HttpMessage) (url : Text) :
    Action Response := do
  let userId ← Action.ofExcept (getUserIdFromUrl url)
  let sessionUserId ← Action.ofExcept (getUserId session)
  Action.ofExcept (require (Security.hasPermissionToDeleteProfilePicture sessionUserId userId))
  let found ← existsPictureForId env userId
  if ! found then
    return (({} : Response).setNotFoundHeader).setErrorBody "Cannot find requested picture".toList
  deletePicture env userId
  return ({} : Response).setSuccessfulHeader

/-- `handlePutRequest`. -/
def handlePutRequest (session : Option Session) (httpMessage : HttpMessage) (url : Text) :
    Action Response := do
  let userId ← Action.ofExcept (getUserIdFromUrl url)
  let sessionUserId ← Action.ofExcept (getUserId session)
  Action.ofExcept (require (Security.hasPermissionToEditProfilePicture sessionUserId userId))
  let found ← existsPictureForId env userId
  if found then deletePicture env userId
  savePicture env userId httpMessage.body httpMessage.bodyLen
  return ({} : Response).setSuccessfulHeader

/-- `PictureHandler`. Viewing pictures is public. -/
def handler : Handler where
  getPublic := true
  handleGetRequest := handleGetRequest env
  handlePutRequest := handlePutRequest env
  handleDeleteRequest := handleDeleteRequest env
  handlePostRequest := postNotImplemented

end PictureHandler

namespace ContactsHandler

open RelationsManager

/-- What is shown of a contact and of the person who is the contact. -/
def contactAsJson (contact : Contact) (person : Person) : Json :=
  Json.ofMembers ([
    ("id", .ofLong person.id),
    ("first_name", .string person.firstName),
    ("last_name", .string person.lastName)] ++
    (person.getCurrentJob.toList.map fun currentJob => ("current_job", currentJob.serializeMe)) ++
    [("status", .string contact.status)])

/-- The body with the contacts of a user. -/
def contactsBody (db : DB) (contacts : List Contact) : Except Exn Json := do
  let contactsAsJson ← contacts.mapM fun contact => do
    let person ← getUserById db contact.userId
    return contactAsJson contact person
  return Json.ofMembers (
    ("metadata", Json.ofMembers [("count", .int contacts.length)]) ::
    Json.appendedMember "contacts" contactsAsJson)

/-- `handleGetRequest`. -/
def handleGetRequest (_ : Option Session) (_ : HttpMessage) (url : Text) : Action Response :=
  Action.handling (do
    let userId ← Action.ofExcept (getUserIdFromUrl url)
    let contacts ← Action.query (PersonManager.getContactsByUserId · userId)
    let responseBody ← Action.query (contactsBody · contacts)
    return (({} : Response).setSuccessfulHeader).setBody responseBody.toStyledString) answered

/-- A user without a notification token gets no notification. -/
def withoutToken (e : Exn) : Except Exn Unit :=
  match e with
  | .nonexistentNotificationToken _ => .ok ()
  | e => .error e

/-- `sendNotification`. -/
def sendNotification (parsedBody : Json) : Action Unit :=
  Action.handling (Action.query fun db => do
    let fromUserId ← (← parsedBody.member "author_id").asLargestInt
    let toUserId ← (← parsedBody.member "contact_id").asLargestInt
    let token ← getNotificationTokenByUserId db toUserId
    let person ← getUserById db fromUserId
    let name := person.firstName ++ [' '] ++ person.lastName
    let request ← NotificationSender.buildContactRequest env fromUserId toUserId name token
    NotificationSender.sendNotification env request) withoutToken

/-- `handlePutRequest`. -/
def handlePutRequest (session : Option Session) (httpMessage : HttpMessage) (_ : Text) :
    Action Response :=
  Action.handling (do
    let parsedBody ← Action.ofExcept (parseBody env (requestBody httpMessage))
    Action.ofExcept (checkMember parsedBody "action" "Missing action")
    Action.ofExcept (checkMember parsedBody "author_id" "Missing author_id")
    Action.ofExcept (checkMember parsedBody "contact_id" "Missing contact_id")
    let authorId ← Action.ofExcept (parsedBody.member "author_id" >>= Json.asLargestInt)
    let sessionUserId ← Action.ofExcept (getUserId session)
    Action.ofExcept (require (Security.hasPermissionToContactUser sessionUserId authorId))
    Action.onStore fun db => saveOrUpdateRelation db parsedBody
    let action ← Action.ofExcept (parsedBody.member "action")
    if action.isText addContactAction then sendNotification env parsedBody
    return ({} : Response).setSuccessfulHeader) answered

/-- `ContactsHandler`. -/
def handler : Handler where
  handleGetRequest := handleGetRequest
  handlePutRequest := handlePutRequest env
  handleDeleteRequest := notImplemented
  handlePostRequest := postNotImplemented

end ContactsHandler

namespace RecommendationsHandler

/-- `getToUserFromQueryParams`. -/
def getToUserFromQueryParams (queryParams : Text) : Except Exn Long :=
  getIdFromQueryParams queryParams "to".toList

/-- `getFromUserFromQueryParams`. -/
def getFromUserFromQueryParams (queryParams : Text) : Except Exn Long :=
  getIdFromQueryParams queryParams "from".toList

/-- `handleDeleteRequest`. -/
def handleDeleteRequest (session : Option Session) (httpMessage : HttpMessage) (_ : Text) :
    Action Response :=
  Action.handling (do
    let fromUserId ← Action.ofExcept (getFromUserFromQueryParams httpMessage.queryString)
    let toUserId ← Action.ofExcept (getToUserFromQueryParams httpMessage.queryString)
    let sessionUserId ← Action.ofExcept (getUserId session)
    Action.ofExcept
      (require (Security.hasPermissionToDeleteRecommendations sessionUserId fromUserId))
    Action.onStore fun db => removeRecommendation db fromUserId toUserId
    return ({} : Response).setSuccessfulHeader) answered

/-- `handlePutRequest`. -/
def handlePutRequest (session : Option Session) (httpMessage : HttpMessage) (_ : Text) :
    Action Response :=
  Action.handling (do
    let parsedBody ← Action.ofExcept (parseBody env (requestBody httpMessage))
    Action.ofExcept (checkMember parsedBody "from" "Missing from user")
    Action.ofExcept (checkMember parsedBody "to" "Missing to user")
    let userId ← Action.ofExcept (parsedBody.member "from" >>= Json.asLargestInt)
    let sessionUserId ← Action.ofExcept (getUserId session)
    Action.ofExcept (require (Security.hasPermissionToSendRecommendations sessionUserId userId))
    Action.onStore fun db => saveRecommendation db parsedBody
    return ({} : Response).setSuccessfulHeader) answered

/-- `RecommendationsHandler`. -/
def handler : Handler where
  handleGetRequest := notImplemented
  handlePutRequest := handlePutRequest env
  handleDeleteRequest := handleDeleteRequest
  handlePostRequest := postNotImplemented

end RecommendationsHandler

namespace ConversationsHandler

open MessagesManager

/-- `buildJsonResponse`. -/
def buildJsonResponse (conversations : List Conversation) : Json :=
  Json.ofMembers (
    ("metadata", Json.ofMembers [
      ("total_count", .int conversations.length),
      ("total_unread_count", .int (conversations.map Conversation.unreadCount).sum)]) ::
    Json.appendedMember "conversations" (conversations.map Conversation.serializeMe))

/-- `handleGetRequest`. -/
def handleGetRequest (session : Option Session) (_ : HttpMessage) (url : Text) :
    Action Response :=
  Action.handling (do
    let userId ← Action.ofExcept (getUserIdFromUrl url)
    let sessionUserId ← Action.ofExcept (getUserId session)
    Action.ofExcept (require (Security.hasPermissionToGetMessages sessionUserId userId))
    let conversations ← Action.query (getAllConversations · userId)
    return (({} : Response).setBody (buildJsonResponse conversations).toStyledString)
      |>.setSuccessfulHeader) answered

/-- `ConversationsHandler`. -/
def handler : Handler where
  handleGetRequest := handleGetRequest
  handlePutRequest := notImplemented
  handleDeleteRequest := notImplemented
  handlePostRequest := postNotImplemented

end ConversationsHandler

namespace NotificationTokenHandler

/-- `handlePutRequest`. -/
def handlePutRequest (session : Option Session) (httpMessage : HttpMessage) (url : Text) :
    Action Response :=
  Action.handling (do
    let userId ← Action.ofExcept (getUserIdFromUrl url)
    let sessionUserId ← Action.ofExcept (getUserId session)
    Action.ofExcept
      (require (Security.hasPermissionToUpdateNotificationToken sessionUserId userId))
    let parsedBody ← Action.ofExcept (parseBody env (requestBody httpMessage))
    Action.onStore fun db => setOrUpdateNotificationToken db parsedBody userId
    return ({} : Response).setSuccessfulHeader) answered

/-- `NotificationTokenHandler`. -/
def handler : Handler where
  handleGetRequest := notImplemented
  handlePutRequest := handlePutRequest env
  handleDeleteRequest := notImplemented
  handlePostRequest := postNotImplemented

end NotificationTokenHandler

namespace LoginHandler

/-- The body with a token and the id of its user. -/
def tokenBody (userToken : Text) (userId : Long) : Text :=
  (Json.ofMembers [("token", .string userToken), ("user_id", .ofLong userId)]).toStyledString

/-- The exceptions that the login catches. -/
def rejected (e : Exn) : Except Exn Response :=
  match e with
  | .invalidPassword =>
    .ok ((({} : Response).setUnauthorizedHeader).setErrorBody (e.what.getD []))
  | .userNotFoundMail userMail =>
    .ok ((({} : Response).setNotFoundHeader).setErrorBody (userNotFoundMessageMail userMail))
  | .userNotFoundId _ =>
    .ok ((({} : Response).setNotFoundHeader).setErrorBody (userNotFoundMessageMail []))
  | .invalidRequest details => .ok (badRequest details)
  | e => .error e

/-- `handlePostRequest`. -/
def handlePostRequest (_ : Option Session) (httpMessage : HttpMessage) : Action Response :=
  Action.handling (do
    let body ← Action.ofExcept (parseBody env (requestBody httpMessage))
    Action.ofExcept (checkMember body "email" "Mail member is missing")
    Action.ofExcept (checkMember body "password" "Password member is missing")
    let userMail ← Action.ofExcept (body.stringMember "email")
    let userPassword ← Action.ofExcept (body.stringMember "password")
    let userToken ← Action.onStore fun db =>
      login env.clock db env.loginTime env.newToken userMail userPassword
    let userId ← Action.query (SessionManager.getUserId · userToken)
    return (({} : Response).setSuccessfulHeader).setBody (tokenBody userToken userId)) rejected

/-- `LoginHandler`. -/
def handler : Handler where
  postPublic := true
  putPublic := true
  getPublic := true
  deletePublic := true
  handleGetRequest := notImplemented
  handlePutRequest := notImplemented
  handleDeleteRequest := notImplemented
  handlePostRequest := handlePostRequest env

end LoginHandler

namespace LoginWithFacebookHandler

/-- `buildStringRequest`. -/
def buildStringRequest (tokenToSend : Text) : Except Exn Text := do
  let getCommand := "curl -i -X GET".toList
  let url ← configured env "facebookUrl"
  let fields := "fields=first_name,last_name,birthday,email".toList
  let token := "access_token=".toList ++ tokenToSend
  return getCommand ++ [' ', '"'] ++ url ++ ['?'] ++ fields ++ ['&'] ++ token ++ ['"']

/-- `DummyServer::getFacebookDummyResponse`. -/
def getFacebookDummyResponse : Text :=
  "HTTP/1.1 200 OK\n".toList ++
    "x-app-usage: \x7b\"call_count\":2,\"total_cputime\":1,\"total_time\":2\x7d\n".toList ++
    "x-fb-rev: 2702404\nx-fb-trace-id: Cf9CGhVLlFm\n".toList ++
    "Expires: Sat, 01 Jan 2000 00:00:00 GMT\n".toList ++
    "Content-Type: application/json; charset=UTF-8\nfacebook-api-version: v2.8\n".toList ++
    "Cache-Control: private, no-cache, no-store, must-revalidate\nPragma: no-cache\n".toList ++
    "ETag: \"883a40b13cf35bc6f98afbe90d124efee9798267\"\n".toList ++
    "Access-Control-Allow-Origin: *\nVary: Accept-Encoding\n".toList ++
    "X-FB-Debug: wb85HnWzGrROPDsHluYraPDNVCgVSkS2adiz0PxseiMJHf3S8wqXRNOUicXszztkyGSyVaB80TpYq".toList ++
    "+TpjrgE4g==\nDate: Thu, 24 Nov 2016 20:01:35 GMT\nTransfer-Encoding: chunked\n".toList ++
    "Connection: keep-alive\r\n\r\n".toList ++
    "\x7b\"first_name\":\"John\",\"last_name\":\"Doe\",\"birthday\":\"01/01/1990\",".toList ++
    "\"email\":\"john@doe.com\",\"id\":\"1000000\"\x7d".toList

/-- `performRequest`. -/
def performRequest (request : Text) : Except Exn Text := do
  let dummyServerEnabled ← configured env "dummyServerEnabled"
  if dummyServerEnabled = "true".toList then return getFacebookDummyResponse
  match env.popen (cString request) with
  | none => .error (.errorLoginWithFacebook "Failed request to Facebook".toList)
  | some result => return result

/-- `parseResponse`. A response without the end of a header leads before its beginning. -/
def parseResponse (response : Text) : Except Exn Json :=
  match find "\r\n\r\n".toList response with
  | none => .error .undefinedBehaviour
  | some bodyStart =>
    match env.reader (response.drop (bodyStart + 4)) with
    | none => .error (.errorLoginWithFacebook "Error parsing Facebook response".toList)
    | some root => .ok root

/-- `getUserDataFromFacebook`. -/
def getUserDataFromFacebook (requestAsJson : Json) : Except Exn Json := do
  checkMember requestAsJson "token" "Missing token"
  let token ← requestAsJson.stringMember "token"
  let request ← buildStringRequest env token
  let response ← performRequest env request
  let parsedResponse ← parseResponse env response
  if (← parsedResponse.isMember "error") then
    let details ← (← parsedResponse.member "error").stringMember "message"
    throw (.errorLoginWithFacebook details)
  return parsedResponse

/-- `createPerson`. The setters keep the case of the names. -/
def createPerson (data : Json) : Except Exn Person := do
  let firstName ← data.stringMember "first_name"
  let lastName ← data.stringMember "last_name"
  let birthday ← data.stringMember "birthday"
  let email ← data.stringMember "email"
  return {
    id := 0, totRecommendations := 0, firstName, lastName, email, password := []
    dateOfBirth := birthday, city := [], summary := []
    location := { latitude := 0, longitude := 0 }, workHistory := [], skills := [] }

/-- The exceptions that `handlePostRequest` catches. -/
def rejected (e : Exn) : Except Exn Response :=
  match e with
  | .invalidRequest details => .ok (badRequest details)
  | .errorLoginWithFacebook details => .ok (badRequest details)
  | e => .error e

/-- The account with the mail of the person: a new one, or the one that is there. -/
def findOrCreate (person : Person) : Action (Person × Long) := do
  let found ← Action.query fun db => .ok (userExistsMail db person.email)
  if ! found then
    let personId ← Action.onStore fun db => savePerson db person.serializeMe (-1)
    return (person, personId)
  else
    let stored ← Action.query (getUserByMail · person.email)
    return (stored, stored.id)

/-- `handlePostRequest`. -/
def handlePostRequest (_ : Option Session) (httpMessage : HttpMessage) : Action Response :=
  Action.handling (do
    let parsedBody ← Action.ofExcept (parseBody env (requestBody httpMessage))
    let data ← Action.ofExcept (getUserDataFromFacebook env parsedBody)
    let created ← Action.ofExcept (createPerson data)
    let (person, personId) ← findOrCreate created
    let userToken ← Action.onStore fun db =>
      facebookLogin env.clock db env.loginTime env.newToken person.email
    return (({} : Response).setBody (LoginHandler.tokenBody userToken personId))
      |>.setSuccessfulHeader) rejected

/-- `LoginWithFacebookHandler`. -/
def handler : Handler where
  postPublic := true
  putPublic := true
  deletePublic := true
  getPublic := true
  handleGetRequest := notImplemented
  handlePutRequest := notImplemented
  handleDeleteRequest := notImplemented
  handlePostRequest := handlePostRequest env

end LoginWithFacebookHandler

end TallerII
