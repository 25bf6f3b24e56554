import TallerII.Session

/-!
# Requests, responses and actions of the server

A handler is an `Action`: it reads and changes what the server keeps, the store and the files of
pictures, and returns a value or throws. What it changed before it throws stays changed. What
comes from outside, the clock, random draws, the JSON reader, the configuration and the commands
that the server starts, is an `Environment`.
-/

namespace TallerII

open SessionManager

/-- The string at a pointer ends before the first NUL. -/
def cString (memory : Text) : Text :=
  memory.takeWhile (· ≠ Char.ofNat 0)

/-- What the handlers read of an `http_message`. The body is the memory from `body.p` on. -/
structure HttpMessage where
  method : Text
  uri : Text
  queryString : Text
  authorization : Option Text
  body : Text
  bodyLen : Nat

/-! ## Responses -/

/-- `Response`. -/
structure Response where
  header : Text := []
  body : Text := []
  binaryBody : Text := []
  bodyLength : Nat := 0
  hasBinaryContent : Bool := false
  contentType : Text := "text/json".toList
deriving DecidableEq

namespace Response

/-- `setBody`. -/
def setBody (response : Response) (body : Text) : Response :=
  { response with body, bodyLength := (cString body).length }

/-- `setBinaryBody`. -/
def setBinaryBody (response : Response) (body : Text) (length : Nat) (contentType : Text) :
    Response :=
  { response with
    hasBinaryContent := true, binaryBody := body, bodyLength := length, contentType }

/-- `setErrorBody`. -/
def setErrorBody (response : Response) (errorDetails : Text) : Response :=
  response.setBody (Json.ofMembers [
    ("successful", .string "false".toList), ("error", .string errorDetails)]).toStyledString

/-- The header that `setSuccessfulHeader` sets. -/
def successfulHeader : Text := "200 OK".toList

/-- `setSuccessfulHeader`. -/
def setSuccessfulHeader (response : Response) : Response :=
  { response with header := successfulHeader }

/-- `setBadRequestHeader`. -/
def setBadRequestHeader (response : Response) : Response :=
  { response with header := "400 Bad Request".toList }

/-- `setUnauthorizedHeader`. -/
def setUnauthorizedHeader (response : Response) : Response :=
  { response with header := "401 Unauthorized".toList }

/-- `setForbiddenRequestHeader`. -/
def setForbiddenRequestHeader (response : Response) : Response :=
  { response with header := "403 Forbidden".toList }

/-- `setNotFoundHeader`. -/
def setNotFoundHeader (response : Response) : Response :=
  { response with header := "404 Not Found".toList }

/-- `setConflictHeader`. -/
def setConflictHeader (response : Response) : Response :=
  { response with header := "409 Conflict".toList }

/-- `setInternalServerErrorHeader`. -/
def setInternalServerErrorHeader (response : Response) : Response :=
  { response with header := "500 Internal Server Error".toList }

/-- `setNotImplementedHeader`. -/
def setNotImplementedHeader (response : Response) : Response :=
  { response with header := "501 Not Implemented".toList }

/-- `getHeader`. -/
def getHeader (response : Response) : Text :=
  "HTTP/1.1 ".toList ++ response.header ++ "\r\n".toList ++
    "Transfer-Encoding: chunked\r\n".toList ++
    (if response.bodyLength ≠ 0 then
      "Content-Type: ".toList ++ response.contentType ++ "\r\n".toList else []) ++
    "Content-Length: ".toList ++ Nat.toDigits 10 response.bodyLength ++ "\r\n".toList ++
    "\r\n".toList

/-- `getBody`: the memory that the pointer leads to. -/
def getBody (response : Response) : Text :=
  if response.hasBinaryContent then response.binaryBody else response.body

/-- The header of the response is the one of a success. -/
def IsSuccessful (response : Response) : Prop :=
  response.header = successfulHeader

/-- Whether a response is a success can be computed. -/
instance (response : Response) : Decidable response.IsSuccessful :=
  inferInstanceAs (Decidable (response.header = successfulHeader))

end Response

/-! ## Texts of exceptions -/

/-- `what` of an exception that is a `std::exception`. The texts are in UTF-8. -/
def Exn.what : Exn → Option Text
  | .userAlreadyExists => some "El usuario ya existe en el sistema".toList
  | .badImplementation => some "Implementaci\xc3\xb3n mal hecha. Debugear.".toList
  | .invalidPassword =>
    some "Combinaci\xc3\xb3n mail de usuario y contrase\xc3\xb1a inv\xc3\xa1lida.".toList
  | .invalidToken =>
    some "El login no corresponde con una sesi\xc3\xb3n abierta valida   ".toList
  | .tokenExpired => some "La sesi\xc3\xb3n expir\xc3\xb3.".toList
  | .notAuthorized =>
    some "El usuario no tiene permisos para realizar la acci\xc3\xb3n".toList
  | .specialRequest => some "Se busca algo especial...".toList
  | .json what => some what.toList
  | .runtimeError what => some what.toList
  | .invalidArgument function => some function.toList
  | .outOfRange function => some function.toList
  | .userNotFoundId _ | .userNotFoundMail _ | .nonexistentNotificationToken _
  | .errorLoginWithFacebook _ | .pictureNotFound _ | .errorDeletingFile _
  | .missingConfiguration _ => some "std::exception".toList
  | .invalidRequest _ | .undefinedBehaviour => none

/-- `UserNotFoundException::getMessage` with the id. -/
def userNotFoundMessageId (userId : Long) : Text :=
  "Usuario con el id ".toList ++ toString userId ++ " no existe en el sistema".toList

/-- `UserNotFoundException::getMessage` with the mail. -/
def userNotFoundMessageMail (userMail : Text) : Text :=
  "Usuario con el mail ".toList ++ userMail ++ " no existe en el sistema".toList

/-! ## Actions -/

/-- What comes from outside while a request is handled. -/
structure Environment where
  clock : Clock
  /-- The readings of the clock by `getSession`. -/
  readings : Readings
  /-- The reading of the clock by a login. -/
  loginTime : Int
  /-- The token that a login draws. -/
  newToken : Text
  /-- The timestamp of a message. -/
  timestamp : Text
  /-- `Json::Reader::parse`, for the texts on which it succeeds. -/
  reader : Text → Option Json
  /-- The values of the configuration. -/
  config : String → Option Text
  /-- The output of a command that is started with `popen`. -/
  popen : Text → Option Text

/-- What the server keeps. -/
structure Server where
  db : DB
  /-- The contents of the files, by their paths. -/
  files : Text → Option Text

/-- A computation of the server. -/
abbrev Action (α : Type) := ExceptT Exn (StateM Server) α

/-- Runs an action: its outcome, and what it leaves also when it throws. -/
def Action.serve {α : Type} (action : Action α) (server : Server) : Except Exn α × Server :=
  (ExceptT.run action).run server

namespace Action

variable {α β : Type} (server : Server)

/-- An operation on the store. -/
def onStore (operation : DB → Except Exn α × DB) : Action α :=
  ExceptT.mk fun server =>
    let (result, db) := operation server.db
    (result, { server with db })

/-- A query of the store. -/
def query (operation : DB → Except Exn α) : Action α :=
  ExceptT.mk fun server => (operation server.db, server)

/-- A computation that concerns neither the store nor the files. -/
def ofExcept (result : Except Exn α) : Action α :=
  ExceptT.mk fun server => (result, server)

/-- A `try` block with its `catch` clauses: an exception is handled with what was left when it was
thrown. -/
def handling (action : Action α) (handler : Exn → Except Exn α) : Action α :=
  ExceptT.mk fun server =>
    match action.serve server with
    | (.error e, next) => (handler e, next)
    | (.ok value, next) => (.ok value, next)

/-- A value leaves the server. -/
@[simp] theorem serve_pure (value : α) : Action.serve (pure value) server = (.ok value, server) :=
  rfl

/-- So does an exception. -/
@[simp] theorem serve_throw (e : Exn) :
    Action.serve (throw e : Action α) server = (.error e, server) := rfl

/-- An operation of the managers changes the store alone. -/
@[simp] theorem serve_onStore (operation : DB → Except Exn α × DB) :
    (onStore operation).serve server
      = ((operation server.db).1, { server with db := (operation server.db).2 }) := rfl

/-- A query leaves the server. -/
@[simp] theorem serve_query (operation : DB → Except Exn α) :
    (query operation).serve server = (operation server.db, server) := rfl

/-- So does a computation without it. -/
@[simp] theorem serve_ofExcept (result : Except Exn α) :
    (ofExcept result).serve server = (result, server) := rfl

/-- A sequence stops where its first part throws. -/
theorem serve_bind (first : Action α) (rest : α → Action β) :
    Action.serve (first >>= rest) server
      = match first.serve server with
        | (.error e, next) => (.error e, next)
        | (.ok value, next) => (rest value).serve next := by
  show (ExceptT.bindCont rest (first.serve server).1).run (first.serve server).2 = _
  rcases first.serve server with ⟨result, next⟩
  cases result <;> rfl

/-- Behind a value comes the rest. -/
theorem serve_bind_ok {first : Action α} {rest : α → Action β} {server next : Server} {value : α}
    (h : first.serve server = (.ok value, next)) :
    Action.serve (first >>= rest) server = (rest value).serve next := by
  rw [serve_bind, h]

/-- Two actions, one after another, succeed when both do. -/
theorem serve_bind_eq_ok {first : Action α} {rest : α → Action β} {server next : Server}
    {value : β} :
    Action.serve (first >>= rest) server = (.ok value, next) ↔
      ∃ found between, first.serve server = (.ok found, between) ∧
        (rest found).serve between = (.ok value, next) := by
  rw [serve_bind]
  rcases first.serve server with ⟨_ | found, between⟩ <;> simp

/-- Behind an exception comes nothing. -/
theorem serve_bind_error {first : Action α} {rest : α → Action β} {server next : Server} {e : Exn}
    (h : first.serve server = (.error e, next)) :
    Action.serve (first >>= rest) server = (.error e, next) := by
  rw [serve_bind, h]

/-- Two computations in a row that concern neither the store nor the files are one. -/
theorem ofExcept_bind {γ : Type} (result : Except Exn α) (rest : α → Except Exn β)
    (last : β → Action γ) :
    (do
      let value ← ofExcept result
      let other ← ofExcept (rest value)
      last other) = ofExcept (result >>= rest) >>= last := by
  cases result <;> rfl

/-- An exception is handled in the server that the action leaves. -/
theorem serve_handling (action : Action α) (handler : Exn → Except Exn α) :
    (action.handling handler).serve server
      = match action.serve server with
        | (.error e, next) => (handler e, next)
        | (.ok value, next) => (.ok value, next) := rfl

/-- A `catch` clause changes nothing of what was left. -/
theorem serve_handling_snd (action : Action α) (handler : Exn → Except Exn α) (server : Server) :
    ((action.handling handler).serve server).2 = (action.serve server).2 := by
  rw [serve_handling]
  rcases action.serve server with ⟨_ | value, next⟩ <;> rfl

/-- A value is not handled. -/
theorem serve_handling_ok {action : Action α} {server next : Server} {value : α}
    (h : action.serve server = (.ok value, next)) (handler : Exn → Except Exn α) :
    (action.handling handler).serve server = (.ok value, next) := by
  rw [serve_handling, h]

/-- An exception is. -/
theorem serve_handling_error {action : Action α} {server next : Server} {e : Exn}
    (h : action.serve server = (.error e, next)) (handler : Exn → Except Exn α) :
    (action.handling handler).serve server = (handler e, next) := by
  rw [serve_handling, h]

end Action

end TallerII
