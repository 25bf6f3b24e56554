import TallerII.Requests

/-!
# Commands that requests start

`popen` hands a command to a shell, and what the shell runs may change the files and the database
before the request goes on. The methods that start commands are given here with that effect, under
names that end in `In`. A request does what it does without the effect, and at most one command
before it or after it; so `changes_handleRequestIn` says that every request is a sequence of
permitted writes and of commands that it may start.
-/

namespace TallerII

open Handler Manager PersonManager RelationsManager SessionManager Lib

/-- What running a command does to the database and the files of the server. -/
abbrev Shell := Text → Server → Server

/-- `popen`: the command runs, and its output is read. -/
def popen (shell : Shell) (env : Environment) (command : Text) : Action (Option Text) := do
  modify (shell command)
  return env.popen command

variable (shell : Shell) (env : Environment)

/-! ## Notifications -/

namespace NotificationSender

/-- `performRequest`, with what the command does. -/
def performRequestIn (request : Text) : Action Text := do
  let dummyServerEnabled ← Action.ofExcept (configured env "dummyServerEnabled")
  if dummyServerEnabled = "true".toList then return []
  let output ← popen shell env (cString request)
  Action.ofExcept (match output with
    | none => .error (.runtimeError "Failed request to Firebase")
    | some result => return result)

/-- `sendNotification`, with what the command does. -/
def sendNotificationIn (request : Text) : Action Unit := do
  let _ ← performRequestIn shell env request
  return ()

end NotificationSender

namespace ContactsHandler

/-- The command of a notification. -/
def notificationRequest (parsedBody : Json) (db : DB) : Except Exn Text := do
  let fromUserId ← (← parsedBody.member "author_id").asLargestInt
  let toUserId ← (← parsedBody.member "contact_id").asLargestInt
  let token ← getNotificationTokenByUserId db toUserId
  let person ← getUserById db fromUserId
  let name := person.firstName ++ [' '] ++ person.lastName
  NotificationSender.buildContactRequest env fromUserId toUserId name token

/-- `sendNotification`, with what the command does. -/
def sendNotificationIn (parsedBody : Json) : Action Unit :=
  Action.handling (do
    let request ← Action.query (notificationRequest env parsedBody)
    NotificationSender.sendNotificationIn shell env request) withoutToken

/-- `handlePutRequest`, with what the command does. -/
def handlePutRequestIn (session : Option Session) (httpMessage : HttpMessage) (_ : Text) :
    Action Response :=
  Action.handling (do
    let parsedBody ← Action.ofExcept (parseBody env (requestBody httpMessage))
    Action.ofExcept (checkMember parsedBody "action" "Missing action")
    Action.ofExcept (checkMember parsedBody "author_id" "Missing author_id")
    Action.ofExcept (checkMember parsedBody "contact_id" "Missing contact_id")
    let authorId ← Action.ofExcept (parsedBody.member "author_id" >>= Json.asLargestInt)
    let sessionUserId ← Action.ofExcept (getUserId session)
    Action.ofExcept (require (Security.hasPermissionToContactUser sessionUserId authorId))
    Action.onStore fun db => saveOrUpdateRelation db parsedBody
    let action ← Action.ofExcept (parsedBody.member "action")
    if action.isText addContactAction then sendNotificationIn shell env parsedBody
    return ({} : Response).setSuccessfulHeader) answered

/-- `ContactsHandler`. -/
def handlerIn : Handler :=
  { handler env with handlePutRequest := handlePutRequestIn shell env }

end ContactsHandler

namespace MessagesHandler

/-- The command of a notification, from the text of the saved message. -/
def notificationRequest (savedMessage : Text) (db : DB) : Except Exn Text := do
  let root := (env.reader savedMessage).getD .null
  let fromUserId ← (← root.member "from").asLargestInt
  let toUserId ← (← root.member "to").asLargestInt
  let message ← root.stringMember "message"
  let timestamp ← root.stringMember "timestamp"
  let token ← getNotificationTokenByUserId db toUserId
  NotificationSender.buildMessageRequest env fromUserId toUserId message timestamp token

/-- `sendNotification`, with what the command does. -/
def sendNotificationIn (savedMessage : Text) : Action Unit :=
  Action.handling (do
    let request ← Action.query (notificationRequest env savedMessage)
    NotificationSender.sendNotificationIn shell env request) ContactsHandler.withoutToken

/-- `handlePutRequest`, with what the command does. -/
def handlePutRequestIn (session : Option Session) (httpMessage : HttpMessage) (_ : Text) :
    Action Response :=
  Action.handling (do
    let parsedBody ← Action.ofExcept (parseBody env (requestBody httpMessage))
    Action.ofExcept (checkMember parsedBody "from" "Missing from user")
    Action.ofExcept (checkMember parsedBody "to" "Missing to user")
    Action.ofExcept (checkMember parsedBody "message" "Missing message")
    let userId ← Action.ofExcept (parsedBody.member "from" >>= Json.asLargestInt)
    let sessionUserId ← Action.ofExcept (getUserId session)
    Action.ofExcept (require (Security.hasPermissionToSendMessage sessionUserId userId))
    let savedMessage ← Action.onStore fun db =>
        PersonManager.saveMessage db env.timestamp parsedBody
    sendNotificationIn shell env savedMessage
    return (({} : Response).setSuccessfulHeader).setBody savedMessage) answered

/-- `MessagesHandler`. -/
def handlerIn : Handler :=
  { handler env with handlePutRequest := handlePutRequestIn shell env }

end MessagesHandler

/-! ## Signing in with Facebook -/

namespace LoginWithFacebookHandler

/-- `performRequest`, with what the command does. -/
def performRequestIn (request : Text) : Action Text := do
  let dummyServerEnabled ← Action.ofExcept (configured env "dummyServerEnabled")
  if dummyServerEnabled = "true".toList then return getFacebookDummyResponse
  let output ← popen shell env (cString request)
  Action.ofExcept (match output with
    | none => .error (.errorLoginWithFacebook "Failed request to Facebook".toList)
    | some result => return result)

/-- What `getUserDataFromFacebook` makes of a response. -/
def dataOfResponse (response : Text) : Except Exn Json := do
  let parsedResponse ← parseResponse env response
  if (← parsedResponse.isMember "error") then
    let details ← (← parsedResponse.member "error").stringMember "message"
    throw (.errorLoginWithFacebook details)
  return parsedResponse

/-- `getUserDataFromFacebook`, with what the command does. -/
def getUserDataFromFacebookIn (requestAsJson : Json) : Action Json := do
  Action.ofExcept (checkMember requestAsJson "token" "Missing token")
  let token ← Action.ofExcept (requestAsJson.stringMember "token")
  let request ← Action.ofExcept (buildStringRequest env token)
  let response ← performRequestIn shell env request
  Action.ofExcept (dataOfResponse env response)

/-- `handlePostRequest`, with what the command does. -/
def handlePostRequestIn (_ : Option Session) (httpMessage : HttpMessage) : Action Response :=
  Action.handling (do
    let parsedBody ← Action.ofExcept (parseBody env (requestBody httpMessage))
    let data ← getUserDataFromFacebookIn shell env parsedBody
    let created ← Action.ofExcept (createPerson data)
    let (person, personId) ← findOrCreate created
    let userToken ← Action.onStore fun db =>
      facebookLogin env.clock db env.loginTime env.newToken person.email
    return (({} : Response).setBody (LoginHandler.tokenBody userToken personId))
      |>.setSuccessfulHeader) rejected

/-- `LoginWithFacebookHandler`. -/
def handlerIn : Handler :=
  { handler env with handlePostRequest := handlePostRequestIn shell env }

end LoginWithFacebookHandler

/-! ## Routing -/

namespace WebHandler

/-- The handler of a route, with what its commands do. -/
def handlerOfIn (searchHandler : Handler) : Route → Option Handler
  | .contacts => some (ContactsHandler.handlerIn shell env)
  | .facebookLogin => some (LoginWithFacebookHandler.handlerIn shell env)
  | .messages => some (MessagesHandler.handlerIn shell env)
  | other => handlerOf env searchHandler other

/-- `handleRequest`, with what the commands do. -/
def handleRequestIn (searchHandler : Handler) (httpMessage : HttpMessage) : Action Response :=
  Action.handling (
    match handlerOfIn shell env searchHandler (route httpMessage.uri) with
    | some handler => handler.handleRequest env httpMessage httpMessage.uri
    | none =>
      if route httpMessage.uri = .special then throw .specialRequest
      else return ({} : Response).setNotFoundHeader) failed

end WebHandler

/-! ## The commands that a request may start -/

/-- A request starts at most the command of a sign-in that it posts, with the token of its body,
or the command of a notification for what it puts. -/
inductive Starts (env : Environment) (httpMessage : HttpMessage) : Text → Prop where
  | facebook {body : Json} {token request : Text} (hpost : PostsTo .facebookLogin httpMessage)
      (hbody : parseBody env (requestBody httpMessage) = .ok body)
      (htoken : body.stringMember "token" = .ok token)
      (hbuilt : LoginWithFacebookHandler.buildStringRequest env token = .ok request) :
      Starts env httpMessage (cString request)
  | notification {data token request : Text} (hput : httpMessage.method = "PUT".toList)
      (hbuilt : NotificationSender.buildCommonRequest env data token = .ok request) :
      Starts env httpMessage (cString request)

/-- At most one of the commands has run. -/
def Ran (shell : Shell) (starts : Text → Prop) (server next : Server) : Prop :=
  next = server ∨ ∃ command, starts command ∧ next = shell command server

/-! ## Effects before and after -/

section Relations

variable {α β : Type} {R : Server → Server → Prop}

/-- The second action ends as the first one does, and leaves what the relation makes of what that
one leaves. -/
def Followed (R : Server → Server → Prop) (first second : Action α) : Prop :=
  ∀ server, (second.serve server).1 = (first.serve server).1 ∧
    R (first.serve server).2 (second.serve server).2

/-- The second action is the first one on what the relation makes of the server. -/
def Preceded (R : Server → Server → Prop) (first second : Action α) : Prop :=
  ∀ server, ∃ between, R server between ∧ second.serve server = first.serve between

/-- Nothing needs to happen behind an action. -/
theorem Followed.refl (hrefl : ∀ server, R server server) (action : Action α) :
    Followed R action action :=
  fun _ => ⟨rfl, hrefl _⟩

/-- Nor in front of it. -/
theorem Preceded.refl (hrefl : ∀ server, R server server) (action : Action α) :
    Preceded R action action :=
  fun server => ⟨server, hrefl server, rfl⟩

/-- The same first part, and an effect at the end of the rest. -/
theorem Followed.bind (hrefl : ∀ server, R server server) {first : Action α}
    {rest restIn : α → Action β}
    (h : ∀ value, Returns first value → Followed R (rest value) (restIn value)) :
    Followed R (first >>= rest) (first >>= restIn) := by
  intro server
  rw [Action.serve_bind, Action.serve_bind]
  rcases hfirst : first.serve server with ⟨e | value, next⟩
  · exact ⟨rfl, hrefl next⟩
  · exact h value ⟨server, congrArg Prod.fst hfirst⟩ next

/-- A choice between actions with effects behind them. -/
theorem Followed.ite {condition : Prop} [Decidable condition]
    {left right leftIn rightIn : Action α}
    (hleft : condition → Followed R left leftIn)
    (hright : ¬ condition → Followed R right rightIn) :
    Followed R (if condition then left else right) (if condition then leftIn else rightIn) := by
  split
  · exact hleft ‹_›
  · exact hright ‹_›

/-- A choice between actions with effects in front of them. -/
theorem Preceded.ite {condition : Prop} [Decidable condition]
    {left right leftIn rightIn : Action α}
    (hleft : condition → Preceded R left leftIn)
    (hright : ¬ condition → Preceded R right rightIn) :
    Preceded R (if condition then left else right) (if condition then leftIn else rightIn) := by
  split
  · exact hleft ‹_›
  · exact hright ‹_›

/-- Nothing behind the effect looks at the server. -/
theorem Followed.bind_ofExcept {first second : Action α} (h : Followed R first second)
    (rest : α → Except Exn β) :
    Followed R (first >>= fun value => Action.ofExcept (rest value))
      (second >>= fun value => Action.ofExcept (rest value)) := by
  intro server
  obtain ⟨hresult, hleft⟩ := h server
  rw [Action.serve_bind, Action.serve_bind]
  rcases hsecond : second.serve server with ⟨result, next⟩
  rw [hsecond] at hresult hleft
  obtain rfl : result = (first.serve server).1 := hresult
  rcases hfirst : first.serve server with ⟨e | value, between⟩
  · rw [hfirst] at hleft
    exact ⟨rfl, hleft⟩
  · rw [hfirst] at hleft
    exact ⟨rfl, hleft⟩

/-- A handler does not see the effect behind the action. -/
theorem Followed.handling {first second : Action α} (h : Followed R first second)
    (handler : Exn → Except Exn α) :
      Followed R (first.handling handler) (second.handling handler) := by
  intro server
  obtain ⟨hresult, hleft⟩ := h server
  rw [Action.serve_handling, Action.serve_handling]
  rcases hsecond : second.serve server with ⟨result, next⟩
  rw [hsecond] at hresult hleft
  obtain rfl : result = (first.serve server).1 := hresult
  rcases hfirst : first.serve server with ⟨e | value, between⟩
  · rw [hfirst] at hleft
    exact ⟨rfl, hleft⟩
  · rw [hfirst] at hleft
    exact ⟨rfl, hleft⟩

/-- Nor the one in front of it. -/
theorem Preceded.handling {first second : Action α} (h : Preceded R first second)
    (handler : Exn → Except Exn α) :
      Preceded R (first.handling handler) (second.handling handler) := by
  intro server
  obtain ⟨between, hbefore, hserve⟩ := h server
  exact ⟨between, hbefore, by rw [Action.serve_handling, Action.serve_handling, hserve]⟩

/-- A value that is computed with an effect, where it was computed without one. -/
theorem Preceded.of_followed {result : Except Exn α} {action : Action α}
    (h : Followed R (Action.ofExcept result) action) (rest : α → Action β) :
    Preceded R (Action.ofExcept result >>= rest) (action >>= rest) := by
  intro server
  obtain ⟨hresult, hleft⟩ := h server
  rcases haction : action.serve server with ⟨outcome, next⟩
  rw [haction] at hresult hleft
  obtain rfl : outcome = result := hresult
  refine ⟨next, hleft, ?_⟩
  rw [Action.serve_bind, haction, Action.serve_bind, Action.serve_ofExcept]

/-- The same computation without the server in front. -/
theorem Preceded.bind_ofExcept (hrefl : ∀ server, R server server) {result : Except Exn α}
    {rest restIn : α → Action β}
    (h : ∀ value, result = .ok value → Preceded R (rest value) (restIn value)) :
    Preceded R (Action.ofExcept result >>= rest) (Action.ofExcept result >>= restIn) := by
  intro server
  rw [Action.serve_bind, Action.serve_ofExcept]
  cases hresult : result with
  | error e => exact ⟨server, hrefl server, by rw [Action.serve_bind, Action.serve_ofExcept]⟩
  | ok value =>
      obtain ⟨between, hbefore, hserve⟩ := h value hresult server
      exact ⟨between, hbefore, by rw [Action.serve_bind, Action.serve_ofExcept]; exact hserve⟩

end Relations

/-! ## The methods that start commands -/

/-- Perhaps no command has run. -/
theorem ran_refl (starts : Text → Prop) (server : Server) : Ran shell starts server server :=
  .inl rfl

/-- A computation without the server goes on with another one. -/
theorem ofExcept_bind {α β : Type} (result : Except Exn α) (rest : α → Except Exn β) :
    Action.ofExcept (result >>= rest)
      = Action.ofExcept result >>= fun value => Action.ofExcept (rest value) := by
  cases result <;> rfl

/-- A query and a computation that goes on with its value are one query. -/
theorem query_bind {α β : Type} (operation : DB → Except Exn α) (rest : α → Except Exn β) :
    Action.query (fun db => operation db >>= rest)
      = Action.query operation >>= fun value => Action.ofExcept (rest value) := by
  funext server
  show ((operation server.db >>= rest : Except Exn β), server) = _
  rw [show (Action.query operation >>= fun value => Action.ofExcept (rest value)) server = _
    from Action.serve_bind server _ _, Action.serve_query]
  cases operation server.db <;> rfl

section Methods

variable {shell} {env} {starts : Text → Prop} {request : Text} {httpMessage : HttpMessage}

/-- A command whose output is all that its outcome depends on. -/
theorem followed_popen {α : Type} {command : Text} (h : starts command)
    (outcome : Option Text → Except Exn α) :
    Followed (Ran shell starts) (Action.ofExcept (outcome (env.popen command)))
      (do
        let output ← popen shell env command
        Action.ofExcept (outcome output)) :=
  fun _ => ⟨rfl, .inr ⟨command, h, rfl⟩⟩

/-- A request that goes to the dummy server, or is made by a command. -/
theorem followed_request {alternative : Text} {outcome : Option Text → Except Exn Text}
    (h : starts (cString request)) :
    Followed (Ran shell starts)
      (Action.ofExcept (do
        let dummyServerEnabled ← configured env "dummyServerEnabled"
        if dummyServerEnabled = "true".toList then return alternative
        outcome (env.popen (cString request))))
      (do
        let dummyServerEnabled ← Action.ofExcept (configured env "dummyServerEnabled")
        if dummyServerEnabled = "true".toList then return alternative
        let output ← popen shell env (cString request)
        Action.ofExcept (outcome output)) := by
  have hrefl := ran_refl shell starts
  rw [ofExcept_bind]
  refine .bind hrefl fun enabled _ => ?_
  by_cases henabled : enabled = "true".toList
  · rw [if_pos henabled, if_pos henabled]
    exact .refl hrefl _
  · rw [if_neg henabled, if_neg henabled]
    exact followed_popen h outcome

/-- A notification ends as without its command, which may have run. -/
theorem followed_sendNotificationIn (h : starts (cString request)) :
    Followed (Ran shell starts)
    (Action.ofExcept (NotificationSender.sendNotification env request))
      (NotificationSender.sendNotificationIn shell env request) := by
  rw [NotificationSender.sendNotification, ofExcept_bind]
  refine Followed.bind_ofExcept ?_ fun _ => .ok ()
  exact @followed_request _ _ _ _ [] (fun output => match output with
    | none => .error (.runtimeError "Failed request to Firebase")
    | some result => return result) h

/-- The command of a notification is built by `buildCommonRequest`. -/
theorem starts_contacts {parsedBody : Json} {db : DB} (hput : httpMessage.method = "PUT".toList)
    (h : ContactsHandler.notificationRequest env parsedBody db = .ok request) :
    Starts env httpMessage (cString request) := by
  simp only [ContactsHandler.notificationRequest, bind_eq_ok] at h
  obtain ⟨_, -, _, -, _, -, _, -, token, -, _, -, hbuilt⟩ := h
  exact .notification hput hbuilt

/-- The command of a message is one that the request may start. -/
theorem starts_messages {savedMessage : Text} {db : DB} (hput : httpMessage.method = "PUT".toList)
    (h : MessagesHandler.notificationRequest env savedMessage db = .ok request) :
    Starts env httpMessage (cString request) := by
  simp only [MessagesHandler.notificationRequest, bind_eq_ok] at h
  obtain ⟨_, -, _, -, _, -, _, -, _, -, _, -, token, -, hbuilt⟩ := h
  exact .notification hput hbuilt

/-- A notification ends as without its command, which may have run. -/
theorem followed_notification {operation : DB → Except Exn Text}
    (h : ∀ db request, operation db = .ok request → starts (cString request))
    (handler : Exn → Except Exn Unit) :
    Followed (Ran shell starts)
      (Action.handling (Action.query fun db =>
        operation db >>= NotificationSender.sendNotification env) handler)
      (Action.handling (do
        let request ← Action.query operation
        NotificationSender.sendNotificationIn shell env request) handler) := by
  rw [query_bind]
  refine Followed.handling (.bind (ran_refl shell starts) fun request hrequest => ?_) _
  obtain ⟨server, hserver⟩ := hrequest
  exact followed_sendNotificationIn (h server.db request hserver)

/-- The notification of a contact is a command at the end. -/
theorem followed_contacts {parsedBody : Json} (hput : httpMessage.method = "PUT".toList) :
    Followed (Ran shell (Starts env httpMessage))
    (ContactsHandler.sendNotification env parsedBody)
      (ContactsHandler.sendNotificationIn shell env parsedBody) := by
  have hsent : ContactsHandler.sendNotification env parsedBody
      = Action.handling (Action.query fun db =>
        ContactsHandler.notificationRequest env parsedBody db
        >>= NotificationSender.sendNotification env) ContactsHandler.withoutToken := by
    simp only [ContactsHandler.sendNotification, ContactsHandler.notificationRequest, bind_assoc]
  rw [hsent]
  exact followed_notification (fun db request hrequest => starts_contacts hput hrequest) _

/-- The notification of a message is a command at the end. -/
theorem followed_messages {savedMessage : Text} (hput : httpMessage.method = "PUT".toList) :
    Followed (Ran shell (Starts env httpMessage))
    (MessagesHandler.sendNotification env savedMessage)
      (MessagesHandler.sendNotificationIn shell env savedMessage) := by
  have hsent : MessagesHandler.sendNotification env savedMessage
      = Action.handling (Action.query fun db =>
        MessagesHandler.notificationRequest env savedMessage db
        >>= NotificationSender.sendNotification env) ContactsHandler.withoutToken := by
    simp only [MessagesHandler.sendNotification, MessagesHandler.notificationRequest, bind_assoc]
  rw [hsent]
  exact followed_notification (fun db request hrequest => starts_messages hput hrequest) _

/-- A contact is changed, and then at most one command runs. -/
theorem followed_contacts_put (hput : httpMessage.method = "PUT".toList)
    (session : Option Session)
    (url : Text) :
    Followed (Ran shell (Starts env httpMessage))
      (ContactsHandler.handlePutRequest env session httpMessage url)
      (ContactsHandler.handlePutRequestIn shell env session httpMessage url) := by
  have hrefl := ran_refl shell (Starts env httpMessage)
  refine Followed.handling (.bind hrefl fun parsedBody _ => ?_) _
  refine .bind hrefl fun _ _ => .bind hrefl fun _ _ => .bind hrefl fun _ _ => ?_
  refine .bind hrefl fun authorId _ => .bind hrefl fun sessionUserId _ =>
    .bind hrefl fun _ _ => ?_
  refine .bind hrefl fun _ _ => .bind hrefl fun action _ => ?_
  exact .ite (fun _ => Followed.bind_ofExcept (followed_contacts hput) fun _ =>
    .ok ({} : Response).setSuccessfulHeader) fun _ => .refl hrefl _

/-- A message is saved, and then at most one command runs. -/
theorem followed_messages_put (hput : httpMessage.method = "PUT".toList)
    (session : Option Session)
    (url : Text) :
    Followed (Ran shell (Starts env httpMessage))
      (MessagesHandler.handlePutRequest env session httpMessage url)
      (MessagesHandler.handlePutRequestIn shell env session httpMessage url) := by
  have hrefl := ran_refl shell (Starts env httpMessage)
  refine Followed.handling (.bind hrefl fun parsedBody _ => ?_) _
  refine .bind hrefl fun _ _ => .bind hrefl fun _ _ => .bind hrefl fun _ _ => ?_
  refine .bind hrefl fun userId _ => .bind hrefl fun sessionUserId _ => .bind hrefl fun _ _ => ?_
  refine .bind hrefl fun savedMessage _ => ?_
  exact Followed.bind_ofExcept (followed_messages hput) fun _ =>
    .ok ((({} : Response).setSuccessfulHeader).setBody savedMessage)

/-- Facebook is asked with at most one command. -/
theorem followed_getUserDataFromFacebookIn {requestAsJson : Json}
    (h : ∀ token request, requestAsJson.stringMember "token" = .ok token →
      LoginWithFacebookHandler.buildStringRequest env token = .ok request →
        starts (cString request)) :
    Followed (Ran shell starts)
      (Action.ofExcept (LoginWithFacebookHandler.getUserDataFromFacebook env requestAsJson))
      (LoginWithFacebookHandler.getUserDataFromFacebookIn shell env requestAsJson) := by
  have hrefl := ran_refl shell starts
  rw [LoginWithFacebookHandler.getUserDataFromFacebook, ofExcept_bind]
  refine .bind hrefl fun _ _ => ?_
  rw [ofExcept_bind]
  refine .bind hrefl fun token htoken => ?_
  rw [ofExcept_bind]
  refine .bind hrefl fun request hbuilt => ?_
  rw [ofExcept_bind]
  refine Followed.bind_ofExcept ?_ (LoginWithFacebookHandler.dataOfResponse env)
  exact @followed_request _ _ _ _ LoginWithFacebookHandler.getFacebookDummyResponse
    (fun output => match output with
      | none => .error (.errorLoginWithFacebook "Failed request to Facebook".toList)
      | some result => return result)
    (h token request (eq_ok_of_returns htoken) (eq_ok_of_returns hbuilt))

/-- A sign-in runs at most one command before it reads the store. -/
theorem preceded_facebook_post (hpost : PostsTo .facebookLogin httpMessage)
    (session : Option Session) :
    Preceded (Ran shell (Starts env httpMessage))
      (LoginWithFacebookHandler.handlePostRequest env session httpMessage)
      (LoginWithFacebookHandler.handlePostRequestIn shell env session httpMessage) := by
  refine Preceded.handling (.bind_ofExcept (ran_refl shell _) fun body hbody => ?_) _
  exact .of_followed (followed_getUserDataFromFacebookIn fun token request htoken hbuilt =>
    .facebook hpost hbody htoken hbuilt) _

end Methods

/-! ## Whole requests -/

section Requests

variable {shell} {env} {httpMessage : HttpMessage} {R : Server → Server → Prop}

/-- A handler whose PUT method starts a command at its end. -/
theorem followed_handler (hrefl : ∀ server, R server server) {handler : Handler}
    {putIn : Option Session → HttpMessage → Text → Action Response}
    (h : httpMessage.method = "PUT".toList → ∀ session url,
      Followed R (handler.handlePutRequest session httpMessage url)
        (putIn session httpMessage url))
    (url : Text) :
    Followed R (handler.handleRequest env httpMessage url)
      (Handler.handleRequest env { handler with handlePutRequest := putIn } httpMessage url) := by
  refine Followed.handling (.ite (fun _ => .refl hrefl _) fun _ => ?_) _
  refine .ite (fun hput => .bind hrefl fun session _ => h hput session url) fun _ => ?_
  exact .refl hrefl _

/-- A public handler whose POST method starts a command at its beginning. -/
theorem preceded_handler (hrefl : ∀ server, R server server) {handler : Handler}
    {postIn : Option Session → HttpMessage → Action Response}
    (hpublic : handler.postPublic = true)
    (h : httpMessage.method = "POST".toList → ∀ session,
      Preceded R (handler.handlePostRequest session httpMessage) (postIn session httpMessage))
    (url : Text) :
    Preceded R (handler.handleRequest env httpMessage url)
      (Handler.handleRequest env { handler with handlePostRequest := postIn } httpMessage
        url) := by
  refine Preceded.handling (.ite (fun _ => .refl hrefl _) fun _ => ?_) _
  refine .ite (fun _ => .refl hrefl _) fun _ => .ite (fun _ => .refl hrefl _) fun _ => ?_
  refine .ite (fun hpost => ?_) fun _ => .refl hrefl _
  rw [hpublic]
  exact h hpost none

/-- A request does what it does without the effect of commands, with a command at the end or, when
it signs in with Facebook, one at the beginning. -/
theorem handleRequestIn_cases (shell : Shell) (env : Environment) (searchHandler : Handler)
    (httpMessage : HttpMessage) :
    Followed (Ran shell (Starts env httpMessage))
    (WebHandler.handleRequest env searchHandler httpMessage)
        (WebHandler.handleRequestIn shell env searchHandler httpMessage) ∨
      WebHandler.route httpMessage.uri = .facebookLogin ∧
        Preceded (Ran shell (Starts env httpMessage))
          (WebHandler.handleRequest env searchHandler httpMessage)
          (WebHandler.handleRequestIn shell env searchHandler httpMessage) := by
  have hrefl := ran_refl shell (Starts env httpMessage)
  unfold WebHandler.handleRequest WebHandler.handleRequestIn
  cases hroute : WebHandler.route httpMessage.uri with
  | contacts =>
      exact .inl (Followed.handling (followed_handler hrefl followed_contacts_put _) _)
  | messages =>
      exact .inl (Followed.handling (followed_handler hrefl followed_messages_put _) _)
  | facebookLogin =>
      refine .inr
        ⟨rfl, Preceded.handling (preceded_handler hrefl rfl (fun hpost session => ?_) _) _⟩
      exact preceded_facebook_post ⟨hroute, hpost⟩ session
  | _ => exact .inl (.refl hrefl _)

/-- A request to read starts no command. -/
theorem handleRequestIn_of_get (shell : Shell) (env : Environment) (searchHandler : Handler)
    (hget : httpMessage.method = "GET".toList) :
    WebHandler.handleRequestIn shell env searchHandler httpMessage
      = WebHandler.handleRequest env searchHandler httpMessage := by
  unfold WebHandler.handleRequest WebHandler.handleRequestIn
  congr 1
  cases WebHandler.route httpMessage.uri with
  | contacts | messages | facebookLogin =>
      simp only [WebHandler.handlerOfIn, WebHandler.handlerOf, Handler.handleRequest, if_pos hget]
      rfl
  | _ => rfl

/-- A sign-in is the same with any session. -/
theorem does_facebookLogin_request {searchHandler : Handler}
    (hroute : WebHandler.route httpMessage.uri = .facebookLogin) (session : Option Session)
    (server : Server) :
    Does env (principal env httpMessage session) server
      ((WebHandler.handleRequest env searchHandler httpMessage).serve server).2 := by
  have hobeys := @obeys_loginWithFacebook env _ hroute
  rw [WebHandler.handleRequest, Action.serve_handling_snd]
  simp only [WebHandler.handlerOf, hroute]
  rw [Handler.handleRequest, Action.serve_handling_snd]
  refine does_of_anonymous session ?_
  split
  · exact hobeys.get none httpMessage.uri server
  · split
    · exact hobeys.put none httpMessage.uri server
    · split
      · exact hobeys.delete none httpMessage.uri server
      · split
        · rename_i hmethod
          exact hobeys.post none hmethod server
        · exact .refl

/-- A write that is permitted, or a command that the request may start. -/
def Changes (shell : Shell) (env : Environment) (httpMessage : HttpMessage)
    (principal : Principal)
    (server next : Server) : Prop :=
  Writes env principal server next ∨ ∃ command, Starts env httpMessage command ∧
    shell command server = next

/-- A command that may have run is one of the changes. -/
theorem changes_of_ran {principal : Principal} {server next : Server}
    (h : Ran shell (Starts env httpMessage) server next) :
    Relation.ReflTransGen (Changes shell env httpMessage principal) server next := by
  rcases h with rfl | ⟨command, hstarts, rfl⟩
  · exact .refl
  · exact .single (.inr ⟨command, hstarts, rfl⟩)

/-- Writes that are permitted are changes. -/
theorem changes_of_does {principal : Principal} {server next : Server}
    (h : Does env principal server next) :
    Relation.ReflTransGen (Changes shell env httpMessage principal) server next :=
  Relation.ReflTransGen.mono (fun _ _ hwrites => .inl hwrites) _ _ h

/-- Whatever a request asks for, whoever sends it and however it ends, what it does to the server
is a sequence of writes that are permitted to its maker and of commands that it may start. -/
theorem changes_handleRequestIn (lib : TextLibrary) (sorting : SearchHandler.Sorting)
    (shell : Shell)
    (env : Environment) (httpMessage : HttpMessage) (server : Server) :
    Relation.ReflTransGen (Changes shell env httpMessage
        (principal env httpMessage (acceptedSession env httpMessage server))) server
      ((WebHandler.handleRequestIn shell env (SearchHandler.handler lib sorting)
        httpMessage).serve server).2 := by
  rcases handleRequestIn_cases shell env (SearchHandler.handler lib sorting) httpMessage with
    hfollowed | ⟨hroute, hpreceded⟩
  · exact (changes_of_does (does_handleRequest lib sorting env httpMessage server)).trans
      (changes_of_ran (hfollowed server).2)
  · obtain ⟨between, hran, hserve⟩ := hpreceded server
    rw [hserve]
    exact (changes_of_ran hran).trans
      (changes_of_does (does_facebookLogin_request hroute _ between))

/-- The commands that a request may start leave the database and the files alone. -/
def Harmless (shell : Shell) (env : Environment) (httpMessage : HttpMessage) : Prop :=
  ∀ command, Starts env httpMessage command → ∀ server, shell command server = server

/-- Then a request makes only the writes that are permitted to its maker. -/
theorem does_handleRequestIn (lib : TextLibrary) (sorting : SearchHandler.Sorting)
    (h : Harmless shell env httpMessage) (server : Server) :
    Does env (principal env httpMessage (acceptedSession env httpMessage server)) server
      ((WebHandler.handleRequestIn shell env (SearchHandler.handler lib sorting)
        httpMessage).serve server).2 := by
  refine reflTransGen_invariant ?_ .refl
    (changes_handleRequestIn lib sorting shell env httpMessage server)
  intro reached last hreached hchange
  rcases hchange with hwrites | ⟨command, hstarts, rfl⟩
  · exact hreached.tail hwrites
  · rwa [h command hstarts]

end Requests

end TallerII
