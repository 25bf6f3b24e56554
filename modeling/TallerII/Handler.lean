import TallerII.Http

/-!
# The common part of the handlers

`Handler::handleRequest` checks the session of a request unless the method is public, and hands
the request to one of the four methods of the handler. It turns four exceptions into responses;
the others go on to its caller. The methods share the reading of ids from the URL and from the
query.
-/

namespace TallerII

open SessionManager

/-! ## Permissions -/

namespace Security

/-- The comparison that every permission is. -/
def samePerson (left right : Long) : Bool :=
  left = right

/-- `hasPermissionToEdit`. -/
def hasPermissionToEdit (userIdSession userIdToEdit : Long) : Bool :=
  samePerson userIdSession userIdToEdit

/-- `hasPermissionToDeleteUser`. -/
def hasPermissionToDeleteUser (userIdSession userIdToDelete : Long) : Bool :=
  samePerson userIdSession userIdToDelete

/-- `hasPermissionToContactUser`. -/
def hasPermissionToContactUser (userIdSession userIdAuthor : Long) : Bool :=
  samePerson userIdAuthor userIdSession

/-- `hasPermissionToSendMessage`. -/
def hasPermissionToSendMessage (userIdSession userIdAuthor : Long) : Bool :=
  samePerson userIdSession userIdAuthor

/-- `hasPermissionToReadMessage`. -/
def hasPermissionToReadMessage (userIdSession userIdFrom : Long) : Bool :=
  samePerson userIdFrom userIdSession

/-- `hasPermissionToDeleteProfilePicture`. -/
def hasPermissionToDeleteProfilePicture (id userId : Long) : Bool :=
  samePerson id userId

/-- `hasPermissionToEditProfilePicture`. -/
def hasPermissionToEditProfilePicture (id userId : Long) : Bool :=
  samePerson id userId

/-- `hasPermissionToSendRecommendations`. -/
def hasPermissionToSendRecommendations (id userId : Long) : Bool :=
  samePerson id userId

/-- `hasPermissionToDeleteRecommendations`. -/
def hasPermissionToDeleteRecommendations (id userId : Long) : Bool :=
  samePerson id userId

/-- `hasPermissionToUpdateNotificationToken`. -/
def hasPermissionToUpdateNotificationToken (id userId : Long) : Bool :=
  samePerson id userId

/-- `hasPermissionToGetMessages`. -/
def hasPermissionToGetMessages (id userId : Long) : Bool :=
  samePerson id userId

end Security

/-- `Handler`: its public methods and what it does for each method. -/
structure Handler where
  getPublic : Bool := false
  putPublic : Bool := false
  deletePublic : Bool := false
  postPublic : Bool := false
  handleGetRequest : Option Session → HttpMessage → Text → Action Response
  handlePutRequest : Option Session → HttpMessage → Text → Action Response
  handleDeleteRequest : Option Session → HttpMessage → Text → Action Response
  handlePostRequest : Option Session → HttpMessage → Action Response

namespace Handler

variable (env : Environment)

/-! ## Reading requests -/

/-- `parseBody`. -/
def parseBody (body : Text) : Except Exn Json :=
  match env.reader body with
  | none => .error (.invalidRequest "Invalid Json.".toList)
  | some root => .ok root

/-- The body of a request as a C string. -/
def requestBody (httpMessage : HttpMessage) : Text :=
  cString httpMessage.body

/-- The check that a member is there. -/
def checkMember (parsedBody : Json) (name details : String) : Except Exn Unit := do
  if ! (← parsedBody.isMember name) then throw (.invalidRequest details.toList)

/-- `getSubUrl`: what follows the first slash that is not at the front. -/
def getSubUrl (url : Text) : Text :=
  ((url.drop 1).dropWhile (· ≠ '/')).drop 1

/-- `parseUrl`. -/
def parseUrl (url : Text) : List Text :=
  if getSubUrl url ≠ [] then [getSubUrl url] else []

/-- A numeric conversion whose `std::invalid_argument` becomes a bad request. -/
def numeric {α : Type} (details : String) (result : Except Exn α) : Except Exn α :=
  match result with
  | .error (.invalidArgument _) => .error (.invalidRequest details.toList)
  | result => result

/-- `getUserIdFromUrl`. -/
def getUserIdFromUrl (url : Text) : Except Exn Long :=
  match parseUrl url with
  | [userIdAsString] => numeric "Not a numeric id" (stol userIdAsString)
  | _ => .error (.invalidRequest "Cannot get user id from url.".toList)

/-- `std::string::find`: the first position of a text in another. -/
def find (pattern : Text) : Text → Option Nat
  | [] => if pattern = [] then some 0 else none
  | c :: text =>
    if pattern <+: c :: text then some 0 else (find pattern text).map (· + 1)

/-- `getParameterFromQueryParams`. -/
def getParameterFromQueryParams (queryParams parameter : Text) : Except Exn Text :=
  match find parameter queryParams with
  | none =>
    .error (.invalidRequest ("Missing ".toList ++ parameter ++ " parameter".toList))
  | some found =>
    if queryParams.length < found + parameter.length + 2 then
      .error (.invalidRequest "Invalid query params".toList)
    else
      .ok ((queryParams.drop (found + parameter.length + 1)).take (found + parameter.length + 2))

/-- A `long` read from the query. -/
def getIdFromQueryParams (queryParams parameter : Text) : Except Exn Long :=
  numeric "Not a numeric id" (getParameterFromQueryParams queryParams parameter >>= stol)

/-- `getHttpHeader` of the authorization. -/
def getHttpHeader (httpMessage : HttpMessage) : Text :=
  match httpMessage.authorization with
  | none => []
  | some value => cString value

/-- `Config::get`. -/
def configured (configKey : String) : Except Exn Text :=
  match env.config configKey with
  | none => .error (.missingConfiguration configKey)
  | some value => .ok value

/-! ## Sessions -/

/-- `controlAccess`. -/
def controlAccess (httpMessage : HttpMessage) : Action Session :=
  let token := getHttpHeader httpMessage
  if token = [] then
    throw (.invalidRequest "Falta el token de autenticaci\xc3\xb3n en el header".toList)
  else Action.onStore fun db => getSession env.clock db env.readings token

/-- The session that a method works with: none when the method is public. -/
def sessionFor (isPublic : Bool) (httpMessage : HttpMessage) : Action (Option Session) :=
  if isPublic then pure none
  else do
    let session ← controlAccess env httpMessage
    return some session

/-- `this->session->getUserId()`. -/
def getUserId (session : Option Session) : Except Exn Long :=
  match session with
  | none => .error .undefinedBehaviour
  | some session => .ok session.userId

/-- A check of a permission. -/
def require (permitted : Bool) : Except Exn Unit :=
  if permitted then .ok () else .error .notAuthorized

/-! ## Responses -/

/-- `getNotImplementedResponse`. -/
def getNotImplementedResponse : Response :=
  ({} : Response).setNotImplementedHeader

/-- A bad request. -/
def badRequest (details : Text) : Response :=
  (({} : Response).setBadRequestHeader).setErrorBody details

/-- The exceptions that the methods of most handlers catch. A `UserNotFoundException` that was
constructed with a mail has no id to show. -/
def answered (e : Exn) : Except Exn Response :=
  match e with
  | .invalidRequest details => .ok (badRequest details)
  | .userNotFoundId userId =>
    .ok ((({} : Response).setNotFoundHeader).setErrorBody (userNotFoundMessageId userId))
  | .userNotFoundMail _ => .error .undefinedBehaviour
  | e => .error e

/-- The exceptions that `handleRequest` catches. -/
def refused (e : Exn) : Except Exn Response :=
  match e with
  | .invalidRequest details => .ok (badRequest details)
  | .notAuthorized =>
    .ok ((({} : Response).setForbiddenRequestHeader).setErrorBody (e.what.getD []))
  | .invalidToken => .ok ((({} : Response).setUnauthorizedHeader).setBody (e.what.getD []))
  | .tokenExpired => .ok ((({} : Response).setUnauthorizedHeader).setBody (e.what.getD []))
  | e => .error e

/-- `handleRequest`. -/
def handleRequest (handler : Handler) (httpMessage : HttpMessage) (url : Text) :
    Action Response :=
  Action.handling (do
    if httpMessage.method = "GET".toList then
      let session ← sessionFor env handler.getPublic httpMessage
      handler.handleGetRequest session httpMessage url
    else if httpMessage.method = "PUT".toList then
      let session ← sessionFor env handler.putPublic httpMessage
      handler.handlePutRequest session httpMessage url
    else if httpMessage.method = "DELETE".toList then
      let session ← sessionFor env handler.deletePublic httpMessage
      handler.handleDeleteRequest session httpMessage url
    else if httpMessage.method = "POST".toList then
      let session ← sessionFor env handler.postPublic httpMessage
      handler.handlePostRequest session httpMessage
    else pure getNotImplementedResponse) refused

end Handler

end TallerII
