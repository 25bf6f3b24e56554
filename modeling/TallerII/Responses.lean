import TallerII.WebHandler

/-!
# The length of a body

Every response of the server carries the length of its own body: `sized_handleRequest`. A text is
as long as the string at its pointer, and a picture has as many bytes as the response says.
-/

namespace TallerII

open Handler SessionManager

/-- The length is the one of the text, or the picture has that many bytes. -/
def Response.Sized (response : Response) : Prop :=
  if response.hasBinaryContent then response.bodyLength ≤ response.binaryBody.length
  else response.bodyLength = (cString response.body).length

/-! ## What actions return -/

namespace Action

variable {α β : Type} {p : β → Prop}

/-- Whatever an action returns has a property. -/
def Returns (action : Action β) (p : β → Prop) : Prop :=
  ∀ server value next, action.serve server = (.ok value, next) → p value

/-- A value is returned. -/
theorem Returns.pure {value : β} (h : p value) : Returns (Pure.pure value) p := by
  intro server found next hserve
  cases hserve
  exact h

/-- An exception returns nothing. -/
theorem Returns.throw (e : Exn) : Returns (MonadExcept.throw e) p := by
  intro server found next hserve
  cases hserve

/-- A sequence returns what its last part returns. -/
theorem Returns.bind {first : Action α} {rest : α → Action β}
    (h : ∀ value, (rest value).Returns p) :
    Returns (first >>= rest) p := by
  intro server found next hserve
  obtain ⟨value, between, -, hrest⟩ := serve_bind_eq_ok.mp hserve
  exact h value between found next hrest

/-- A handler returns what it makes of the exceptions. -/
theorem Returns.handling {action : Action β} {handler : Exn → Except Exn β} (h : action.Returns p)
    (hhandler : ∀ e value, handler e = .ok value → p value) :
    (action.handling handler).Returns p := by
  intro server found next hserve
  rw [serve_handling] at hserve
  split at hserve
  · exact hhandler _ found (congrArg Prod.fst hserve)
  · rename_i value between hvalue
    rw [hserve] at hvalue
    exact h server found next hvalue

end Action

/-- The responses of a handler have the length of their bodies. -/
structure Handler.Sized (handler : Handler) : Prop where
  get : ∀ session httpMessage url,
    (handler.handleGetRequest session httpMessage url).Returns Response.Sized
  put : ∀ session httpMessage url,
    (handler.handlePutRequest session httpMessage url).Returns Response.Sized
  delete : ∀ session httpMessage url,
    (handler.handleDeleteRequest session httpMessage url).Returns Response.Sized
  post : ∀ session httpMessage,
    (handler.handlePostRequest session httpMessage).Returns Response.Sized

/-! ## Exceptions -/

/-- What is answered to an exception declares its length. -/
theorem sized_answered (e : Exn) (response : Response) (h : answered e = .ok response) :
    response.Sized := by
  cases e <;> cases h <;> rfl

/-- So does a refusal. -/
theorem sized_refused (e : Exn) (response : Response) (h : refused e = .ok response) :
    response.Sized := by
  cases e <;> cases h <;> rfl

/-- So does an internal error. -/
theorem sized_failed (e : Exn) (response : Response) (h : WebHandler.failed e = .ok response) :
    response.Sized := by
  cases e <;> cases h <;> rfl

/-! ## Handlers -/

/-- So does a method that is not implemented. -/
theorem sized_notImplemented (session : Option Session) (httpMessage : HttpMessage) (url : Text) :
    (notImplemented session httpMessage url).Returns Response.Sized :=
  .pure rfl

/-- So does a `POST` that is not implemented. -/
theorem sized_postNotImplemented (session : Option Session) (httpMessage : HttpMessage) :
    (postNotImplemented session httpMessage).Returns Response.Sized :=
  .pure rfl

variable (env : Environment)

/-- The responses about users declare their length. -/
theorem UsersHandler.sized : (UsersHandler.handler env).Sized where
  get _ _ _ := .handling (.bind fun _ => .bind fun _ => .bind fun _ => .bind fun _ => .pure rfl)
    sized_answered
  put _ _ _ := .bind fun _ => .bind fun _ => .bind fun _ =>
    .handling (.bind fun _ => .bind fun _ => .bind fun _ => .pure rfl) sized_answered
  delete _ _ _ :=
    .handling (.bind fun _ => .bind fun _ => .bind fun _ => .bind fun _ => .pure rfl)
    sized_answered
  post _ _ := .handling (.bind fun _ => .bind fun _ => .pure rfl) fun e response h => by
    cases e <;> cases h <;> rfl

/-- A picture is answered with all of its bytes. -/
theorem PictureHandler.returns_buildGetPictureResponse (id : Long) :
    (PictureHandler.buildGetPictureResponse env id).Returns Response.Sized := by
  refine .bind fun path server response next hserve => ?_
  cases hpicture : server.files (cString path) with
  | none =>
      simp only [Action.serve, ExceptT.run, ExceptT.mk, StateT.run, hpicture] at hserve
      cases hserve
  | some picture =>
      cases picture with
      | nil =>
          simp only [Action.serve, ExceptT.run, ExceptT.mk, StateT.run, hpicture] at hserve
          cases hserve
      | cons c picture =>
          simp only [Action.serve, ExceptT.run, ExceptT.mk, StateT.run, hpicture] at hserve
          cases hserve
          exact Nat.le_refl _

/-- So do those with pictures. -/
theorem PictureHandler.sized : (PictureHandler.handler env).Sized where
  get _ _ _ := .handling (.bind fun userId => returns_buildGetPictureResponse env userId)
    fun e response h => by
      cases e <;> cases h <;> rfl
  put _ _ _ := .bind fun _ => .bind fun _ => .bind fun _ => .bind fun found => by
    cases found with
    | false => exact .bind fun _ => .pure rfl
    | true => exact .bind fun _ => .bind fun _ => .pure rfl
  delete _ _ _ := .bind fun _ => .bind fun _ => .bind fun _ => .bind fun found => by
    cases found with
    | false => exact .pure rfl
    | true => exact .bind fun _ => .pure rfl
  post := sized_postNotImplemented

/-- So do those about contacts. -/
theorem ContactsHandler.sized : (ContactsHandler.handler env).Sized where
  get _ _ _ := .handling (.bind fun _ => .bind fun _ => .bind fun _ => .pure rfl) sized_answered
  put _ _ _ := .handling (.bind fun _ => .bind fun _ => .bind fun _ => .bind fun _ =>
    .bind fun _ => .bind fun _ => .bind fun _ => .bind fun _ => .bind fun action => by
      split
      · exact .bind fun _ => .pure rfl
      · exact .pure rfl) sized_answered
  delete := sized_notImplemented
  post := sized_postNotImplemented

/-- So do those about recommendations. -/
theorem RecommendationsHandler.sized : (RecommendationsHandler.handler env).Sized where
  get := sized_notImplemented
  put _ _ _ := .handling (.bind fun _ => .bind fun _ => .bind fun _ => .bind fun _ =>
    .bind fun _ => .bind fun _ => .bind fun _ => .pure rfl) sized_answered
  delete _ _ _ := .handling (.bind fun _ => .bind fun _ => .bind fun _ => .bind fun _ =>
    .bind fun _ => .pure rfl) sized_answered
  post := sized_postNotImplemented

/-- So do those with messages. -/
theorem MessagesHandler.sized : (MessagesHandler.handler env).Sized where
  get _ _ _ := .handling (.bind fun _ => .bind fun _ => .bind fun _ => .bind fun _ =>
    .bind fun _ => .bind fun _ => .bind fun _ => .pure rfl) sized_answered
  put _ _ _ := .handling (.bind fun _ => .bind fun _ => .bind fun _ => .bind fun _ =>
    .bind fun _ => .bind fun _ => .bind fun _ => .bind fun _ => .bind fun _ => .pure rfl)
    sized_answered
  delete := sized_notImplemented
  post := sized_postNotImplemented

/-- So do those about conversations. -/
theorem ConversationsHandler.sized : ConversationsHandler.handler.Sized where
  get _ _ _ := .handling (.bind fun _ => .bind fun _ => .bind fun _ => .bind fun _ => .pure rfl)
    sized_answered
  put := sized_notImplemented
  delete := sized_notImplemented
  post := sized_postNotImplemented

/-- So do those about notification tokens. -/
theorem NotificationTokenHandler.sized : (NotificationTokenHandler.handler env).Sized where
  get := sized_notImplemented
  put _ _ _ := .handling (.bind fun _ => .bind fun _ => .bind fun _ => .bind fun _ =>
    .bind fun _ => .pure rfl) sized_answered
  delete := sized_notImplemented
  post := sized_postNotImplemented

/-- So do those of the login. -/
theorem LoginHandler.sized : (LoginHandler.handler env).Sized where
  get := sized_notImplemented
  put := sized_notImplemented
  delete := sized_notImplemented
  post _ _ := .handling (.bind fun _ => .bind fun _ => .bind fun _ => .bind fun _ =>
    .bind fun _ => .bind fun _ => .bind fun _ => .pure rfl) fun e response h => by
      cases e <;> cases h <;> rfl

/-- So do those of the login with Facebook. -/
theorem LoginWithFacebookHandler.sized : (LoginWithFacebookHandler.handler env).Sized where
  get := sized_notImplemented
  put := sized_notImplemented
  delete := sized_notImplemented
  post _ _ := .handling (.bind fun _ => .bind fun _ => .bind fun _ => .bind fun _ =>
    .bind fun _ => .pure rfl) fun e response h => by
      cases e <;> cases h <;> rfl

/-! ## Requests -/

/-- A handler that declares lengths does so in every method. -/
theorem Handler.Sized.handleRequest {handler : Handler} (h : handler.Sized)
    (httpMessage : HttpMessage) (url : Text) :
    (handler.handleRequest env httpMessage url).Returns Response.Sized := by
  refine .handling ?_ sized_refused
  split
  · exact .bind fun session => h.get session httpMessage url
  split
  · exact .bind fun session => h.put session httpMessage url
  split
  · exact .bind fun session => h.delete session httpMessage url
  split
  · exact .bind fun session => h.post session httpMessage
  · exact .pure rfl

/-- The handler of every route declares lengths. -/
theorem sized_handlerOf {searchHandler : Handler} (hsearch : searchHandler.Sized)
    {route : WebHandler.Route} {handler : Handler}
    (h : WebHandler.handlerOf env searchHandler route = some handler) : handler.Sized := by
  cases route with
  | users =>
      cases h
      exact UsersHandler.sized env
  | picture =>
      cases h
      exact PictureHandler.sized env
  | contacts =>
      cases h
      exact ContactsHandler.sized env
  | login =>
      cases h
      exact LoginHandler.sized env
  | facebookLogin =>
      cases h
      exact LoginWithFacebookHandler.sized env
  | recommendations =>
      cases h
      exact RecommendationsHandler.sized env
  | messages =>
      cases h
      exact MessagesHandler.sized env
  | conversations =>
      cases h
      exact ConversationsHandler.sized
  | notificationTokens =>
      cases h
      exact NotificationTokenHandler.sized env
  | search =>
      cases h
      exact hsearch
  | special => cases h
  | unknown => cases h

/-- Every response has the length of its own body. -/
theorem sized_handleRequest {searchHandler : Handler} (hsearch : searchHandler.Sized)
    (httpMessage : HttpMessage) :
    (WebHandler.handleRequest env searchHandler httpMessage).Returns Response.Sized := by
  refine .handling ?_ sized_failed
  split
  · rename_i handler hhandler
    exact (sized_handlerOf env hsearch hhandler).handleRequest env httpMessage httpMessage.uri
  · split
    · exact .throw _
    · exact .pure rfl

end TallerII
