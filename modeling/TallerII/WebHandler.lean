import TallerII.MessagesHandler

/-!
# Routing

`WebHandler`: the URL chooses the handler of a request, and every exception that a handler lets
through becomes an internal error. Requests for files go on to the server of static files.
-/

namespace TallerII.WebHandler

open Handler

/-- The regular expression of a text and then anything but a line break. -/
def beginsWith (url : Text) (start : String) : Bool :=
  start.toList.isPrefixOf url &&
    (url.drop start.toList.length).all fun c => c ≠ '\n' && c ≠ '\r'

/-- What a URL asks for. -/
inductive Route where
  | users
  | picture
  | contacts
  | login
  | facebookLogin
  | recommendations
  | messages
  | conversations
  | notificationTokens
  | search
  | special
  | unknown
deriving Repr, DecidableEq

/-- The branch of `handleRequest` that a URL takes. -/
def route (url : Text) : Route :=
  if beginsWith url "/users/" ∨ url = "/users".toList then .users
  else if beginsWith url "/profilepicture/" then .picture
  else if beginsWith url "/contacts/" ∨ url = "/contacts".toList then .contacts
  else if url = "/login".toList then .login
  else if url = "/facebooklogin".toList then .facebookLogin
  else if beginsWith url "/recommendations" then .recommendations
  else if beginsWith url "/messages/" ∨ url = "/messages".toList then .messages
  else if beginsWith url "/conversations/" then .conversations
  else if beginsWith url "/notificationtokens/" then .notificationTokens
  else if beginsWith url "/search" then .search
  else if beginsWith url "/profile" then .special
  else .unknown

variable (env : Environment) (searchHandler : Handler)

/-- The handler of a route, for the routes that have one. -/
def handlerOf : Route → Option Handler
  | .users => some (UsersHandler.handler env)
  | .picture => some (PictureHandler.handler env)
  | .contacts => some (ContactsHandler.handler env)
  | .login => some (LoginHandler.handler env)
  | .facebookLogin => some (LoginWithFacebookHandler.handler env)
  | .recommendations => some (RecommendationsHandler.handler env)
  | .messages => some (MessagesHandler.handler env)
  | .conversations => some ConversationsHandler.handler
  | .notificationTokens => some (NotificationTokenHandler.handler env)
  | .search => some searchHandler
  | .special => none
  | .unknown => none

/-- The exceptions that `handleRequest` catches: all that are a `std::exception`, except the one
for files. -/
def failed (e : Exn) : Except Exn Response :=
  match e with
  | .specialRequest => .error e
  | e =>
    match e.what with
    | none => .error e
    | some what => .ok ((({} : Response).setInternalServerErrorHeader).setErrorBody what)

/-- `handleRequest`. -/
def handleRequest (httpMessage : HttpMessage) : Action Response :=
  Action.handling (
    match handlerOf env searchHandler (route httpMessage.uri) with
    | some handler => handler.handleRequest env httpMessage httpMessage.uri
    | none =>
      if route httpMessage.uri = .special then throw .specialRequest
      else return ({} : Response).setNotFoundHeader) failed

end TallerII.WebHandler
