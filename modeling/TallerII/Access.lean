import TallerII.Provenance
import TallerII.Reader
import TallerII.WebHandler

/-!
# Acting for oneself

A request that changes what belongs to a user, or reads the messages of one, names the user it
acts for. `serve_not_own` says what happens when that is not the user of the session: the same
refusal whatever the server keeps, and nothing changes but the two records of the session's token.
-/

namespace TallerII

open SessionManager Handler WebHandler

/-! ## Refusals -/

/-- An exception that says nothing of what the server keeps. -/
def Exn.Refusal : Exn → Prop
  | .invalidRequest _ | .notAuthorized | .invalidToken | .tokenExpired => True
  | .json _ | .invalidArgument _ | .outOfRange _ => True
  | _ => False

/-- A refusal, as a response or as the exception that becomes one. -/
def IsRefusal : Except Exn Response → Prop
  | .ok response => ¬ response.IsSuccessful
  | .error e => e.Refusal

/-- A computation that throws refusals only. -/
def ThrowsRefusals {α : Type} (result : Except Exn α) : Prop :=
  ∀ e, result = .error e → e.Refusal

/-- An action that refuses, without a look at the server. -/
def Refuses (action : Action Response) : Prop :=
  ∃ result, IsRefusal result ∧ ∀ server, action.serve server = (result, server)

/-- A bad request is a refusal. -/
theorem isRefusal_badRequest (details : Text) : IsRefusal (.ok (badRequest details)) := by
  show ¬ "400 Bad Request".toList = Response.successfulHeader
  decide

/-- What is answered to a refusal is a refusal. -/
theorem isRefusal_answered {e : Exn} (h : e.Refusal) : IsRefusal (answered e) := by
  cases e with
  | invalidRequest details => exact isRefusal_badRequest details
  | notAuthorized => exact h
  | invalidToken => exact h
  | tokenExpired => exact h
  | json what => exact h
  | invalidArgument function => exact h
  | outOfRange function => exact h
  | _ => exact absurd h id

/-- What `handleRequest` makes of a refusal is one. -/
theorem isRefusal_refused {e : Exn} (h : e.Refusal) : IsRefusal (refused e) := by
  cases e with
  | invalidRequest details => exact isRefusal_badRequest details
  | notAuthorized =>
      show ¬ "403 Forbidden".toList = Response.successfulHeader
      decide
  | invalidToken =>
      show ¬ "401 Unauthorized".toList = Response.successfulHeader
      decide
  | tokenExpired =>
      show ¬ "401 Unauthorized".toList = Response.successfulHeader
      decide
  | json what => exact h
  | invalidArgument function => exact h
  | outOfRange function => exact h
  | _ => exact absurd h id

/-- What is made of the outcome of a method: `Handler` answers some exceptions, `WebHandler` the
others. -/
def shown (result : Except Exn Response) : Except Exn Response :=
  match result with
  | .ok response => .ok response
  | .error e =>
    match refused e with
    | .ok response => .ok response
    | .error e => failed e

/-- An exception is never answered with success. -/
theorem not_isSuccessful_answered {e : Exn} {response : Response}
    (h : answered e = .ok response) : ¬ response.IsSuccessful := by
  cases e with
  | invalidRequest details =>
      cases h
      show ¬ "400 Bad Request".toList = Response.successfulHeader
      decide
  | userNotFoundId userId =>
      cases h
      show ¬ "404 Not Found".toList = Response.successfulHeader
      decide
  | _ => cases h

/-- An exception that is answered by `handleRequest` is no success. -/
theorem not_isSuccessful_refused {e : Exn} {response : Response} (h : refused e = .ok response) :
    ¬ response.IsSuccessful := by
  have hcodes : "400 Bad Request".toList ≠ Response.successfulHeader ∧
      "401 Unauthorized".toList ≠ Response.successfulHeader ∧
      "403 Forbidden".toList ≠ Response.successfulHeader := by decide
  cases e with
  | invalidRequest details =>
      cases h
      exact hcodes.1
  | invalidToken =>
      cases h
      exact hcodes.2.1
  | tokenExpired =>
      cases h
      exact hcodes.2.1
  | notAuthorized =>
      cases h
      exact hcodes.2.2
  | _ => cases h

/-- What the web handler answers to an exception is no success. -/
theorem not_isSuccessful_failed {e : Exn} {response : Response} (h : failed e = .ok response) :
    ¬ response.IsSuccessful := by
  have hcode : "500 Internal Server Error".toList ≠ Response.successfulHeader := by decide
  cases e with
  | invalidRequest details => cases h
  | specialRequest => cases h
  | undefinedBehaviour => cases h
  | _ =>
      cases h
      exact hcode

/-- A success that is shown is what the method answered. -/
theorem eq_ok_of_shown {result : Except Exn Response} {response : Response}
    (h : shown result = .ok response) (hsuccessful : response.IsSuccessful) :
    result = .ok response := by
  cases result with
  | ok answer => exact h
  | error e =>
      simp only [shown] at h
      split at h
      · rename_i hrefused
        cases h
        exact absurd hsuccessful (not_isSuccessful_refused hrefused)
      · exact absurd hsuccessful (not_isSuccessful_failed h)

/-- A refusal is shown as a response that is not one of success. -/
theorem shown_refusal {result : Except Exn Response} (h : IsRefusal result) :
    ∃ response : Response, ¬ response.IsSuccessful ∧ shown result = .ok response := by
  have hinternal : ∀ details : Text,
      ¬ ((({} : Response).setInternalServerErrorHeader).setErrorBody details).IsSuccessful := by
    intro details
    show ¬ "500 Internal Server Error".toList = Response.successfulHeader
    decide
  cases result with
  | ok response => exact ⟨response, h, rfl⟩
  | error e =>
      have hrefused : IsRefusal (refused e) := isRefusal_refused h
      cases e with
      | invalidRequest details => exact ⟨_, hrefused, rfl⟩
      | notAuthorized => exact ⟨_, hrefused, rfl⟩
      | invalidToken => exact ⟨_, hrefused, rfl⟩
      | tokenExpired => exact ⟨_, hrefused, rfl⟩
      | json what => exact ⟨_, hinternal _, rfl⟩
      | invalidArgument function => exact ⟨_, hinternal _, rfl⟩
      | outOfRange function => exact ⟨_, hinternal _, rfl⟩
      | _ => exact absurd h id

/-! ## Computations that throw refusals only -/

section Throws

variable {env : Environment} {α β : Type}

/-- A value is no exception. -/
theorem ThrowsRefusals.ok (value : α) : ThrowsRefusals (.ok value) := by
  intro e he
  cases he

/-- Throwing a refusal. -/
theorem ThrowsRefusals.error {e : Exn} (h : e.Refusal) :
    ThrowsRefusals (.error e : Except Exn α) := by
  intro other hother
  cases hother
  exact h

/-- One computation after another throws refusals when both do. -/
theorem ThrowsRefusals.bind {first : Except Exn α} {rest : α → Except Exn β}
    (hfirst : ThrowsRefusals first) (hrest : ∀ value, ThrowsRefusals (rest value)) :
    ThrowsRefusals (first >>= rest) := by
  cases first with
  | error e => exact .error (hfirst e rfl)
  | ok value => exact hrest value

/-- A conversion with another text for its exception still throws refusals. -/
theorem ThrowsRefusals.numeric {details : String} {result : Except Exn α}
    (h : ThrowsRefusals result) : ThrowsRefusals (numeric details result) := by
  unfold Handler.numeric
  split
  · exact .error trivial
  · exact h

/-- `stol` throws exceptions that are refused. -/
theorem throwsRefusals_stol (text : Text) : ThrowsRefusals (stol text) := by
  unfold stol
  split
  · exact .error trivial
  · split
    · exact .ok _
    · exact .error trivial

/-- The id of a URL is read or refused. -/
theorem throwsRefusals_getUserIdFromUrl (url : Text) : ThrowsRefusals (getUserIdFromUrl url) := by
  unfold getUserIdFromUrl
  split
  · exact (throwsRefusals_stol _).numeric
  · exact .error trivial

/-- An id in a query is read or refused. -/
theorem throwsRefusals_getIdFromQueryParams (queryParams parameter : Text) :
    ThrowsRefusals (getIdFromQueryParams queryParams parameter) := by
  have hparameter : ThrowsRefusals (getParameterFromQueryParams queryParams parameter) := by
    unfold getParameterFromQueryParams
    split
    · exact .error trivial
    · split
      · exact .error trivial
      · exact .ok _
  exact (hparameter.bind throwsRefusals_stol).numeric

/-- A body is parsed or refused. -/
theorem throwsRefusals_parseBody (body : Text) : ThrowsRefusals (parseBody env body) := by
  unfold parseBody
  split
  · exact .error trivial
  · exact .ok _

/-- A member is there or refused. -/
theorem throwsRefusals_member (value : Json) (name : String) :
    ThrowsRefusals (value.member name) := by
  cases value with
  | null => exact .ok _
  | object members => exact .ok _
  | _ => exact .error trivial

/-- A string is read or refused. -/
theorem throwsRefusals_asString (value : Json) : ThrowsRefusals value.asString := by
  cases value with
  | array items => exact .error trivial
  | object members => exact .error trivial
  | _ => exact .ok _

/-- An integer is read or refused. -/
theorem throwsRefusals_asLargestInt (value : Json) : ThrowsRefusals value.asLargestInt := by
  cases value with
  | int n =>
      simp only [Json.asLargestInt]
      split
      · exact .ok _
      · exact .error trivial
  | real q =>
      simp only [Json.asLargestInt]
      split
      · exact .ok _
      · exact .error trivial
  | null => exact .ok _
  | bool b => exact .ok _
  | _ => exact .error trivial

/-- A member is checked or refused. -/
theorem throwsRefusals_checkMember (parsedBody : Json) (name details : String) :
    ThrowsRefusals (checkMember parsedBody name details) := by
  have hmember : ThrowsRefusals (parsedBody.isMember name) := by
    cases parsedBody with
    | null => exact .ok _
    | object members => exact .ok _
    | _ => exact .error trivial
  refine hmember.bind fun found => ?_
  cases found with
  | true => exact .ok _
  | false => exact .error trivial

end Throws

/-! ## Actions that refuse -/

section Refuses

variable {α : Type}

/-- An action that starts with a computation refuses when that throws a refusal, and otherwise
when the rest does. -/
theorem Refuses.bind {first : Except Exn α} {rest : α → Action Response}
    (hfirst : ThrowsRefusals first) (hrest : ∀ value, first = .ok value → Refuses (rest value)) :
    Refuses (Action.ofExcept first >>= rest) := by
  cases hresult : first with
  | error e =>
      refine ⟨.error e, hfirst e hresult, fun server => ?_⟩
      exact Action.serve_bind_error (Action.serve_ofExcept server _)
  | ok value =>
      obtain ⟨result, hrefusal, hserve⟩ := hrest value hresult
      refine ⟨result, hrefusal, fun server => ?_⟩
      rw [Action.serve_bind_ok (Action.serve_ofExcept server _), hserve]

/-- A check that is not passed refuses. -/
theorem Refuses.require {permitted : Bool} (h : permitted = false)
    {rest : Unit → Action Response} :
    Refuses (Action.ofExcept (Handler.require permitted) >>= rest) := by
  refine .bind ?_ ?_
  · rw [Handler.require, h]
    exact .error trivial
  · intro _ hpassed
    rw [Handler.require, h] at hpassed
    cases hpassed

/-- The `catch` clauses of a method leave a refusal a refusal. -/
theorem Refuses.answered {action : Action Response} (h : Refuses action) :
    Refuses (action.handling Handler.answered) := by
  obtain ⟨result, hrefusal, hserve⟩ := h
  cases result with
  | ok response =>
      exact ⟨.ok response, hrefusal, fun server => Action.serve_handling_ok (hserve server) _⟩
  | error e =>
      exact ⟨Handler.answered e, isRefusal_answered hrefusal,
        fun server => Action.serve_handling_error (hserve server) _⟩

end Refuses

/-! ## Who a request acts for -/

variable (env : Environment) (searchHandler : Handler)

/-- An id in the body of a request. -/
def idInBody (httpMessage : HttpMessage) (name : String) : Except Exn Long := do
  let parsedBody ← parseBody env (requestBody httpMessage)
  (← parsedBody.member name).asLargestInt

/-- The id that a request acts for, for the requests that act for somebody. -/
def actingId (httpMessage : HttpMessage) : Option (Except Exn Long) :=
  let inUrl := getUserIdFromUrl httpMessage.uri
  let isGet := httpMessage.method = "GET".toList
  let isPut := httpMessage.method = "PUT".toList
  let isDelete := httpMessage.method = "DELETE".toList
  match route httpMessage.uri with
  | .users => if isPut ∨ isDelete then some inUrl else none
  | .picture => if isPut ∨ isDelete then some inUrl else none
  | .notificationTokens => if isPut then some inUrl else none
  | .conversations => if isGet then some inUrl else none
  | .messages =>
    if isGet then some inUrl
    else if isPut then some (idInBody env httpMessage "from")
    else none
  | .contacts => if isPut then some (idInBody env httpMessage "author_id") else none
  | .recommendations =>
    if isPut then some (idInBody env httpMessage "from")
    else if isDelete then
      some (RecommendationsHandler.getFromUserFromQueryParams httpMessage.queryString)
    else none
  | _ => none

section Methods

variable {env} {session : Session} {httpMessage : HttpMessage} {url : Text}

/-- The check whether the user that is read is the one of the session. -/
theorem Refuses.notOwn {acting : Except Exn Long} {permits : Long → Long → Bool}
    {rest : Long → Action Response} (hacting : ThrowsRefusals acting)
    (hother : acting ≠ .ok session.userId)
    (hpermits : ∀ userId, permits session.userId userId = true → userId = session.userId) :
    Refuses (do
      let userId ← Action.ofExcept acting
      let sessionUserId ← Action.ofExcept (getUserId (some session))
      Action.ofExcept (Handler.require (permits sessionUserId userId))
      rest userId) := by
  refine .bind hacting fun userId hid => .bind (.ok _) fun sessionUserId hsession => ?_
  cases hsession
  refine .require ?_
  cases hpermitted : permits session.userId userId with
  | false => rfl
  | true =>
      rw [hpermits userId hpermitted] at hid
      exact absurd hid hother

/-- Who may act is the user of the session, as the first of the two that are compared. -/
theorem samePerson_left (userId : Long)
    (h : Security.samePerson session.userId userId = true) : userId = session.userId :=
  (of_decide_eq_true h).symm

/-- Who may act is the user of the session, as the second of the two that are compared. -/
theorem samePerson_right (userId : Long)
    (h : Security.samePerson userId session.userId = true) : userId = session.userId :=
  of_decide_eq_true h

/-- A profile is only updated by its own user. -/
theorem refuses_users_put (hother : getUserIdFromUrl url ≠ .ok session.userId) :
    Refuses (UsersHandler.handlePutRequest env (some session) httpMessage url) :=
  .notOwn (throwsRefusals_getUserIdFromUrl url) hother samePerson_left

/-- A user is only deleted by itself. -/
theorem refuses_users_delete (hother : getUserIdFromUrl url ≠ .ok session.userId) :
    Refuses (UsersHandler.handleDeleteRequest (some session) httpMessage url) :=
  .answered (.notOwn (throwsRefusals_getUserIdFromUrl url) hother samePerson_left)

/-- A picture is only written by its own user. -/
theorem refuses_picture_put (hother : getUserIdFromUrl url ≠ .ok session.userId) :
    Refuses (PictureHandler.handlePutRequest env (some session) httpMessage url) :=
  .notOwn (throwsRefusals_getUserIdFromUrl url) hother samePerson_left

/-- A picture is only removed by its own user. -/
theorem refuses_picture_delete (hother : getUserIdFromUrl url ≠ .ok session.userId) :
    Refuses (PictureHandler.handleDeleteRequest env (some session) httpMessage url) :=
  .notOwn (throwsRefusals_getUserIdFromUrl url) hother samePerson_left

/-- A notification token is only set by its own user. -/
theorem refuses_notificationToken_put (hother : getUserIdFromUrl url ≠ .ok session.userId) :
    Refuses (NotificationTokenHandler.handlePutRequest env (some session) httpMessage url) :=
  .answered (.notOwn (throwsRefusals_getUserIdFromUrl url) hother samePerson_left)

/-- Conversations are only listed for their own user. -/
theorem refuses_conversations_get (hother : getUserIdFromUrl url ≠ .ok session.userId) :
    Refuses (ConversationsHandler.handleGetRequest (some session) httpMessage url) :=
  .answered (.notOwn (throwsRefusals_getUserIdFromUrl url) hother samePerson_left)

/-- Messages are only read by their own user. -/
theorem refuses_messages_get (hother : getUserIdFromUrl url ≠ .ok session.userId) :
    Refuses (MessagesHandler.handleGetRequest (some session) httpMessage url) :=
  .answered (.notOwn (throwsRefusals_getUserIdFromUrl url) hother samePerson_right)

/-- What is read of the body is the acting id. -/
theorem idInBody_of_parsed {parsedBody : Json} {name : String}
    (hparsed : parseBody env (requestBody httpMessage) = .ok parsedBody)
    (hother : idInBody env httpMessage name ≠ .ok session.userId) :
    (parsedBody.member name >>= Json.asLargestInt) ≠ .ok session.userId := by
  rw [idInBody, hparsed] at hother
  exact hother

/-- An id in a body is read or refused. -/
theorem throwsRefusals_idMember (parsedBody : Json) (name : String) :
    ThrowsRefusals (parsedBody.member name >>= Json.asLargestInt) :=
  (throwsRefusals_member _ _).bind throwsRefusals_asLargestInt

/-- A message is only sent by its author. -/
theorem refuses_messages_put (hother : idInBody env httpMessage "from" ≠ .ok session.userId) :
    Refuses (MessagesHandler.handlePutRequest env (some session) httpMessage url) := by
  refine .answered (.bind (throwsRefusals_parseBody _) fun parsedBody hparsed => ?_)
  refine .bind (throwsRefusals_checkMember _ _ _) fun _ _ => ?_
  refine .bind (throwsRefusals_checkMember _ _ _) fun _ _ => ?_
  refine .bind (throwsRefusals_checkMember _ _ _) fun _ _ => ?_
  exact .notOwn (throwsRefusals_idMember _ _) (idInBody_of_parsed hparsed hother) samePerson_left

/-- A recommendation is only made by its author. -/
theorem refuses_recommendations_put
    (hother : idInBody env httpMessage "from" ≠ .ok session.userId) :
    Refuses (RecommendationsHandler.handlePutRequest env (some session) httpMessage url) := by
  refine .answered (.bind (throwsRefusals_parseBody _) fun parsedBody hparsed => ?_)
  refine .bind (throwsRefusals_checkMember _ _ _) fun _ _ => ?_
  refine .bind (throwsRefusals_checkMember _ _ _) fun _ _ => ?_
  exact .notOwn (throwsRefusals_idMember _ _) (idInBody_of_parsed hparsed hother) samePerson_left

/-- A contact is only changed by the author of the act. -/
theorem refuses_contacts_put
    (hother : idInBody env httpMessage "author_id" ≠ .ok session.userId) :
    Refuses (ContactsHandler.handlePutRequest env (some session) httpMessage url) := by
  refine .answered (.bind (throwsRefusals_parseBody _) fun parsedBody hparsed => ?_)
  refine .bind (throwsRefusals_checkMember _ _ _) fun _ _ => ?_
  refine .bind (throwsRefusals_checkMember _ _ _) fun _ _ => ?_
  refine .bind (throwsRefusals_checkMember _ _ _) fun _ _ => ?_
  exact .notOwn (throwsRefusals_idMember _ _) (idInBody_of_parsed hparsed hother) samePerson_right

/-- The target is read between the author and the check. -/
theorem refuses_recommendations_delete
    (hother : RecommendationsHandler.getFromUserFromQueryParams httpMessage.queryString
      ≠ .ok session.userId) :
    Refuses (RecommendationsHandler.handleDeleteRequest (some session) httpMessage url) := by
  refine .answered (.bind (throwsRefusals_getIdFromQueryParams _ _) fun fromUserId hfrom => ?_)
  refine .bind (throwsRefusals_getIdFromQueryParams _ _) fun toUserId _ => ?_
  refine .bind (.ok _) fun sessionUserId hsession => ?_
  cases hsession
  refine .require ?_
  have hne : fromUserId ≠ session.userId := by
    intro hsame
    rw [hsame] at hfrom
    exact hother hfrom
  exact decide_eq_false hne.symm

end Methods

/-! ## Whole requests -/

section Requests

variable {env searchHandler} {httpMessage : HttpMessage} {handler : Handler}

/-- A request to a private method: the session is checked, then the method runs, and what comes
out of either is shown. -/
theorem serve_private {method : Option Session → Action Response}
    (hroute : handlerOf env searchHandler (route httpMessage.uri) = some handler)
    (hbody : handler.handleRequest env httpMessage httpMessage.uri
      = Action.handling (sessionFor env false httpMessage >>= method) refused) (server : Server) :
    (WebHandler.handleRequest env searchHandler httpMessage).serve server
      = match (controlAccess env httpMessage).serve server with
        | (.error e, next) => (shown (.error e), next)
        | (.ok session, next) =>
          (shown ((method (some session)).serve next).1,
            ((method (some session)).serve next).2) := by
  -- the handler turns what its method throws into a response, and the web handler the rest
  have hshown : ∀ {action : Action Response} {result : Except Exn Response} {next : Server},
      action.serve server = (result, next) →
      ((action.handling refused).handling failed).serve server = (shown result, next) := by
    intro action result next hserve
    cases result with
    | ok response =>
        exact Action.serve_handling_ok (Action.serve_handling_ok hserve _) _
    | error e =>
        have hrefused := Action.serve_handling_error hserve refused
        simp only [shown]
        cases hresult : refused e with
        | ok response =>
            rw [hresult] at hrefused
            exact Action.serve_handling_ok hrefused _
        | error thrown =>
            rw [hresult] at hrefused
            exact Action.serve_handling_error hrefused _
  have hsession : sessionFor env false httpMessage
      = (controlAccess env httpMessage >>= fun session => pure (some session)) := rfl
  simp only [WebHandler.handleRequest, hroute, hbody, hsession]
  rcases haccess : (controlAccess env httpMessage).serve server with ⟨result, next⟩
  cases result with
  | error e => exact hshown (Action.serve_bind_error (Action.serve_bind_error haccess))
  | ok session =>
      have hfirst : Action.serve (do
          let session ← controlAccess env httpMessage
          return some session) server = (.ok (some session), next) :=
        Action.serve_bind_ok haccess
      exact hshown (Action.serve_bind_ok hfirst)

/-- A `GET` of a method that needs a session is the access control and then the method. -/
theorem serve_get (hroute : handlerOf env searchHandler (route httpMessage.uri) = some handler)
    (hmethod : httpMessage.method = "GET".toList) (hprivate : handler.getPublic = false)
    (server : Server) :
    (WebHandler.handleRequest env searchHandler httpMessage).serve server
      = match (controlAccess env httpMessage).serve server with
        | (.error e, next) => (shown (.error e), next)
        | (.ok session, next) =>
          let answer :=
            (handler.handleGetRequest (some session) httpMessage httpMessage.uri).serve
            next
          (shown answer.1, answer.2) := by
  refine @serve_private _ _ _ _ (fun session =>
    handler.handleGetRequest session httpMessage httpMessage.uri) hroute ?_ server
  rw [Handler.handleRequest, if_pos hmethod, hprivate]

/-- A `PUT` of a method that needs a session is the access control and then the method. -/
theorem serve_put (hroute : handlerOf env searchHandler (route httpMessage.uri) = some handler)
    (hmethod : httpMessage.method = "PUT".toList) (hprivate : handler.putPublic = false)
    (server : Server) :
    (WebHandler.handleRequest env searchHandler httpMessage).serve server
      = match (controlAccess env httpMessage).serve server with
        | (.error e, next) => (shown (.error e), next)
        | (.ok session, next) =>
          let answer :=
            (handler.handlePutRequest (some session) httpMessage httpMessage.uri).serve
            next
          (shown answer.1, answer.2) := by
  refine @serve_private _ _ _ _ (fun session =>
    handler.handlePutRequest session httpMessage httpMessage.uri) hroute ?_ server
  have hget : httpMessage.method ≠ "GET".toList := by
    rw [hmethod]
    decide
  rw [Handler.handleRequest, if_neg hget, if_pos hmethod, hprivate]

/-- A `DELETE` of a method that needs a session is the access control and then the method. -/
theorem serve_delete (hroute : handlerOf env searchHandler (route httpMessage.uri) = some handler)
    (hmethod : httpMessage.method = "DELETE".toList) (hprivate : handler.deletePublic = false)
    (server : Server) :
    (WebHandler.handleRequest env searchHandler httpMessage).serve server
      = match (controlAccess env httpMessage).serve server with
        | (.error e, next) => (shown (.error e), next)
        | (.ok session, next) =>
          let answer := (handler.handleDeleteRequest (some session) httpMessage
            httpMessage.uri).serve next
          (shown answer.1, answer.2) := by
  refine @serve_private _ _ _ _ (fun session =>
    handler.handleDeleteRequest session httpMessage httpMessage.uri) hroute ?_ server
  have hget : httpMessage.method ≠ "GET".toList := by
    rw [hmethod]
    decide
  have hput : httpMessage.method ≠ "PUT".toList := by
    rw [hmethod]
    decide
  rw [Handler.handleRequest, if_neg hget, if_neg hput, if_pos hmethod, hprivate]

/-- `getSession` throws a refusal before any write, or writes the records of the token for the
user who stands in the one that is there. -/
theorem getSession_cases (clock : Clock) (db : DB) (now : Readings) (token : Text) :
    (∃ e, e.Refusal ∧ getSession clock db now token = (.error e, db)) ∨
      ∃ (session : Session) (entry : Entry), session.token = token ∧
        db.existsKey (key .userToken token) = some entry ∧
        (entry.parse.member "user_mail" >>= Json.asString) = .ok session.userMail ∧
        (entry.parse.member "user_id" >>= Json.asLargestInt) = .ok session.userId ∧
        getSession clock db now token = (.ok session,
          putToken clock db now.updated session.token session.userMail session.userId) := by
  simp only [getSession]
  split
  · exact .inl ⟨.invalidToken, trivial, rfl⟩
  · rename_i entry hentry
    split
    · rename_i e hthrown
      refine .inl ⟨e, ?_, rfl⟩
      refine ThrowsRefusals.bind (throwsRefusals_member _ _) (fun _ => ?_) e hthrown
      refine .bind (throwsRefusals_asString _) fun _ => ?_
      rw [check_eq]
      split
      · exact .error trivial
      · exact (throwsRefusals_member _ _).bind fun _ => throwsRefusals_asString _
    · rename_i userMail hmail
      unfold updateToken
      simp only [hentry]
      cases hid : (entry.parse.member "user_id" >>= Json.asLargestInt) with
      | error e => exact .inl ⟨e, throwsRefusals_idMember _ _ e hid, rfl⟩
      | ok userId =>
          have hread : (entry.parse.member "user_mail" >>= Json.asString) = .ok userMail := by
            simp only [bind_eq_ok, check_eq_ok] at hmail ⊢
            obtain ⟨_, -, _, -, -, mail, hmember, htext⟩ := hmail
            exact ⟨mail, hmember, htext⟩
          refine .inr ⟨{ token, userMail, lastTime := now.returned, userId }, entry, rfl, rfl,
            hread,
            hid, ?_⟩
          simp only [getUserId_putToken]

/-- Checking the session refuses, or writes the two records of the token that was presented. -/
theorem serve_controlAccess (env : Environment) (httpMessage : HttpMessage) (server : Server) :
    (∃ e, e.Refusal ∧
      (controlAccess env httpMessage).serve server = (.error e, server)) ∨
      ∃ session : Session, session.token = getHttpHeader httpMessage ∧
        (controlAccess env httpMessage).serve server = (.ok session, { server with
          db := putToken env.clock server.db env.readings.updated session.token session.userMail
            session.userId }) := by
  by_cases htoken : getHttpHeader httpMessage = []
  · refine .inl ⟨.invalidRequest "Falta el token de autenticaci\xc3\xb3n en el header".toList,
      trivial, ?_⟩
    rw [controlAccess, if_pos htoken]
    rfl
  · have hserve : (controlAccess env httpMessage).serve server
        = ((getSession env.clock server.db env.readings (getHttpHeader httpMessage)).1,
          { server with
            db := (getSession env.clock server.db env.readings (getHttpHeader httpMessage)).2
              }) := by
      rw [controlAccess, if_neg htoken]
      rfl
    rw [hserve]
    rcases getSession_cases env.clock server.db env.readings (getHttpHeader httpMessage) with
      ⟨e, hrefusal, hsession⟩ | ⟨session, -, htoken, -, -, -, hsession⟩
    · exact .inl ⟨e, hrefusal, by rw [hsession]⟩
    · exact .inr ⟨session, htoken, by rw [hsession, htoken]⟩

/-- The two records of the session's own token are written again, or nothing is. -/
def Refreshed (env : Environment) (httpMessage : HttpMessage) (server next : Server) : Prop :=
  next = server ∨
    ∃ session, ((controlAccess env httpMessage).serve server).1 = .ok session ∧
      next = { server with
        db := putToken env.clock server.db env.readings.updated session.token session.userMail
          session.userId }

/-- A method that refuses the session, or no session: the refusal depends on nothing but the
request and the check of its session. -/
theorem refused_of_refuses {method : Session → Action Response} {server : Server}
    (hserve : ∀ server, (WebHandler.handleRequest env searchHandler httpMessage).serve server
      = match (controlAccess env httpMessage).serve server with
        | (.error e, next) => (shown (.error e), next)
        | (.ok session, next) =>
          (shown ((method session).serve next).1, ((method session).serve next).2))
    (hmethod : ∀ session, ((controlAccess env httpMessage).serve server).1 = .ok session →
      Refuses (method session)) :
    ∃ response : Response, ¬ response.IsSuccessful ∧
      (∀ other, ((controlAccess env httpMessage).serve other).1
          = ((controlAccess env httpMessage).serve server).1 →
        ((WebHandler.handleRequest env searchHandler httpMessage).serve other).1 = .ok response) ∧
      Refreshed env httpMessage server
        ((WebHandler.handleRequest env searchHandler httpMessage).serve server).2 := by
  rcases serve_controlAccess env httpMessage server with
    ⟨e, hrefusal, haccess⟩ | ⟨session, -, haccess⟩
  · obtain ⟨response, herror, hshown⟩ := @shown_refusal (.error e) hrefusal
    refine ⟨response, herror, ?_, .inl ?_⟩
    · intro other hsame
      rw [haccess] at hsame
      rw [hserve, ← hshown]
      rcases hother : (controlAccess env httpMessage).serve other with ⟨result, next⟩
      rw [hother] at hsame
      cases hsame
      rfl
    · rw [hserve, haccess]
  · -- the check accepted the session and renewed its token; then the method refused
    obtain ⟨result, hrefusal, hresult⟩ := hmethod session (by rw [haccess])
    obtain ⟨response, herror, hshown⟩ := shown_refusal hrefusal
    refine ⟨response, herror, ?_, .inr ⟨session, by rw [haccess], ?_⟩⟩
    · intro other hsame
      rw [haccess] at hsame
      rw [hserve, ← hshown]
      rcases hother : (controlAccess env httpMessage).serve other with ⟨outcome, next⟩
      rw [hother] at hsame
      cases hsame
      simp only [hresult]
    · rw [hserve, haccess]
      simp only [hresult]

end Requests

/-- A private method serves the request, and it refuses when the user it acts for is another one
than that of the session. -/
def Guards (httpMessage : HttpMessage) (acting : Except Exn Long) : Prop :=
  ∃ method : Session → Action Response,
    (∀ server, (WebHandler.handleRequest env searchHandler httpMessage).serve server
      = match (controlAccess env httpMessage).serve server with
        | (.error e, next) => (shown (.error e), next)
        | (.ok session, next) =>
          (shown ((method session).serve next).1, ((method session).serve next).2)) ∧
    ∀ session, acting ≠ .ok session.userId → Refuses (method session)

section Guarded

variable {env searchHandler} {httpMessage : HttpMessage}

/-- The two handlers that take the id of the URL for changing and for deleting. -/
theorem guards_users (hroute : route httpMessage.uri = .users)
    (hmethod : httpMessage.method = "PUT".toList ∨ httpMessage.method = "DELETE".toList) :
    Guards env searchHandler httpMessage (getUserIdFromUrl httpMessage.uri) := by
  have hhandler : handlerOf env searchHandler (route httpMessage.uri)
      = some (UsersHandler.handler env) := by
    rw [hroute]
    rfl
  rcases hmethod with hput | hdelete
  · exact ⟨_, serve_put hhandler hput rfl, fun session hother => refuses_users_put hother⟩
  · refine ⟨_, serve_delete hhandler hdelete rfl, fun session hother => ?_⟩
    exact @refuses_users_delete session httpMessage _ hother

/-- Writes of pictures are guarded by the id of the URL. -/
theorem guards_picture (hroute : route httpMessage.uri = .picture)
    (hmethod : httpMessage.method = "PUT".toList ∨ httpMessage.method = "DELETE".toList) :
    Guards env searchHandler httpMessage (getUserIdFromUrl httpMessage.uri) := by
  have hhandler : handlerOf env searchHandler (route httpMessage.uri)
      = some (PictureHandler.handler env) := by
    rw [hroute]
    rfl
  rcases hmethod with hput | hdelete
  · exact ⟨_, serve_put hhandler hput rfl, fun session hother => refuses_picture_put hother⟩
  · refine ⟨_, serve_delete hhandler hdelete rfl, fun session hother => ?_⟩
    exact @refuses_picture_delete env session httpMessage _ hother

/-- Notification tokens are guarded by the id of the URL. -/
theorem guards_notificationToken (hroute : route httpMessage.uri = .notificationTokens)
    (hput : httpMessage.method = "PUT".toList) :
    Guards env searchHandler httpMessage (getUserIdFromUrl httpMessage.uri) := by
  have hhandler : handlerOf env searchHandler (route httpMessage.uri)
      = some (NotificationTokenHandler.handler env) := by
    rw [hroute]
    rfl
  exact ⟨_, serve_put hhandler hput rfl, fun session hother =>
    refuses_notificationToken_put hother⟩

/-- The list of conversations is guarded by the id of the URL. -/
theorem guards_conversations (hroute : route httpMessage.uri = .conversations)
    (hget : httpMessage.method = "GET".toList) :
    Guards env searchHandler httpMessage (getUserIdFromUrl httpMessage.uri) := by
  have hhandler : handlerOf env searchHandler (route httpMessage.uri)
      = some ConversationsHandler.handler := by
    rw [hroute]
    rfl
  refine ⟨_, serve_get hhandler hget rfl, fun session hother => ?_⟩
  exact @refuses_conversations_get session httpMessage _ hother

/-- Messages are read by the one of the URL and sent by the one in the body. -/
theorem guards_messages (hroute : route httpMessage.uri = .messages) :
    (httpMessage.method = "GET".toList →
        Guards env searchHandler httpMessage (getUserIdFromUrl httpMessage.uri)) ∧
      (httpMessage.method = "PUT".toList →
        Guards env searchHandler httpMessage (idInBody env httpMessage "from")) := by
  have hhandler : handlerOf env searchHandler (route httpMessage.uri)
      = some (MessagesHandler.handler env) := by
    rw [hroute]
    rfl
  refine ⟨fun hget => ?_, fun hput => ?_⟩
  · exact ⟨_, serve_get hhandler hget rfl, fun session hother => refuses_messages_get hother⟩
  · refine ⟨_, serve_put hhandler hput rfl, fun session hother => ?_⟩
    exact @refuses_messages_put env session httpMessage httpMessage.uri hother

/-- Contacts are guarded by the author in the body. -/
theorem guards_contacts (hroute : route httpMessage.uri = .contacts)
    (hput : httpMessage.method = "PUT".toList) :
    Guards env searchHandler httpMessage (idInBody env httpMessage "author_id") := by
  have hhandler : handlerOf env searchHandler (route httpMessage.uri)
      = some (ContactsHandler.handler env) := by
    rw [hroute]
    rfl
  refine ⟨_, serve_put hhandler hput rfl, fun session hother => ?_⟩
  exact @refuses_contacts_put env session httpMessage httpMessage.uri hother

/-- A recommendation is given by the one in the body and taken back by the one of the query. -/
theorem guards_recommendations (hroute : route httpMessage.uri = .recommendations) :
    (httpMessage.method = "PUT".toList →
        Guards env searchHandler httpMessage (idInBody env httpMessage "from")) ∧
      (httpMessage.method = "DELETE".toList → Guards env searchHandler httpMessage
        (RecommendationsHandler.getFromUserFromQueryParams httpMessage.queryString)) := by
  have hhandler : handlerOf env searchHandler (route httpMessage.uri)
      = some (RecommendationsHandler.handler env) := by
    rw [hroute]
    rfl
  refine ⟨fun hput => ?_, fun hdelete => ?_⟩
  · refine ⟨_, serve_put hhandler hput rfl, fun session hother => ?_⟩
    exact @refuses_recommendations_put env session httpMessage httpMessage.uri hother
  · refine ⟨_, serve_delete hhandler hdelete rfl, fun session hother => ?_⟩
    exact @refuses_recommendations_delete session httpMessage httpMessage.uri hother

/-- Every request that acts for somebody is guarded. -/
theorem guards_of_actingId {acting : Except Exn Long}
    (hacting : actingId env httpMessage = some acting) :
    Guards env searchHandler httpMessage acting := by
  simp only [actingId] at hacting
  -- one case for each route that has a method acting for somebody
  split at hacting
  · rename_i hroute
    obtain ⟨hmethod, ⟨⟩⟩ := Option.ite_none_right_eq_some.mp hacting
    exact guards_users hroute hmethod
  · rename_i hroute
    obtain ⟨hmethod, ⟨⟩⟩ := Option.ite_none_right_eq_some.mp hacting
    exact guards_picture hroute hmethod
  · rename_i hroute
    obtain ⟨hput, ⟨⟩⟩ := Option.ite_none_right_eq_some.mp hacting
    exact guards_notificationToken hroute hput
  · rename_i hroute
    obtain ⟨hget, ⟨⟩⟩ := Option.ite_none_right_eq_some.mp hacting
    exact guards_conversations hroute hget
  · rename_i hroute
    split at hacting
    · rename_i hget
      cases hacting
      exact (guards_messages hroute).1 hget
    · obtain ⟨hput, ⟨⟩⟩ := Option.ite_none_right_eq_some.mp hacting
      exact (guards_messages hroute).2 hput
  · rename_i hroute
    obtain ⟨hput, ⟨⟩⟩ := Option.ite_none_right_eq_some.mp hacting
    exact guards_contacts hroute hput
  · rename_i hroute
    split at hacting
    · rename_i hput
      cases hacting
      exact (guards_recommendations hroute).1 hput
    · obtain ⟨hdelete, ⟨⟩⟩ := Option.ite_none_right_eq_some.mp hacting
      exact (guards_recommendations hroute).2 hdelete
  · cases hacting

end Guarded

/-- A request that acts for another user than the one of its session, or that has no valid
session, is refused: the response is an error, it is the same whatever else the server keeps, and
nothing changes but the two records of the session's token. -/
theorem serve_not_own {httpMessage : HttpMessage} {acting : Except Exn Long} {server : Server}
    (hacting : actingId env httpMessage = some acting)
    (hother : ∀ session, ((controlAccess env httpMessage).serve server).1 = .ok session →
      acting ≠ .ok session.userId) :
    ∃ response : Response, ¬ response.IsSuccessful ∧
      (∀ other, ((controlAccess env httpMessage).serve other).1
          = ((controlAccess env httpMessage).serve server).1 →
        ((WebHandler.handleRequest env searchHandler httpMessage).serve other).1 = .ok response) ∧
      Refreshed env httpMessage server
        ((WebHandler.handleRequest env searchHandler httpMessage).serve server).2 := by
  obtain ⟨method, hserve, hrefuses⟩ := guards_of_actingId hacting
  exact refused_of_refuses hserve fun session hsession =>
    hrefuses session (hother session hsession)

/-- Nothing comes from outside but the clock that stands still and the values of JSON documents.
-/
def Environment.quiet : Environment where
  clock := stoppedClock
  readings := ⟨0, 0, 0⟩
  loginTime := 0
  newToken := []
  timestamp := []
  reader := Reader.valueOf
  config _ := none
  popen _ := none

/-- The user 1, who logged in, asks for the deletion of the user 2. -/
def deletesAnother : HttpMessage where
  method := "DELETE".toList
  uri := "/users/2".toList
  queryString := []
  authorization := some ['t']
  body := []
  bodyLen := 0

/-- The user is refused. -/
theorem serve_not_own_delete :
    ∃ response : Response, ¬ response.IsSuccessful ∧
      ((WebHandler.handleRequest Environment.quiet ConversationsHandler.handler
        deletesAnother).serve
        { db := loggedIn, files := fun _ => none }).1 = .ok response := by
  have hsession : ((controlAccess Environment.quiet deletesAnother).serve
      { db := loggedIn, files := fun _ => none }).1
        = .ok { token := ['t'], userMail := ['a'], lastTime := 0, userId := 1 } := by
    show (getSession stoppedClock loggedIn ⟨0, 0, 0⟩ ['t']).1 = _
    decide
  have hother : ∀ session, ((controlAccess Environment.quiet deletesAnother).serve
      { db := loggedIn, files := fun _ => none }).1 = .ok session →
      (.ok 2 : Except Exn Long) ≠ .ok session.userId := by
    intro session hsame
    rw [hsession] at hsame
    cases hsame
    decide
  obtain ⟨response, herror, hsame, -⟩ := serve_not_own Environment.quiet
    ConversationsHandler.handler (show actingId Environment.quiet deletesAnother = some (.ok 2)
      from by decide) hother
  exact ⟨response, herror, hsame _ rfl⟩

end TallerII
