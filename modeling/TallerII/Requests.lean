import TallerII.Events
import TallerII.Lib.Within
import TallerII.SearchPaging

/-!
# What requests may do

A request is answered in a sequence of writes: calls of `PersonManager`, calls of
`SessionManager`, and pictures that are saved or removed. `Permitted` says which writes are whose:
anybody may register and log in, and everything else is done in the name of the user of the
session. `does_handleRequest` says that every request to the server, whatever it asks for and
however it ends, is a sequence of writes that are permitted to the user of its session.
-/

namespace TallerII

open Handler Manager PersonManager SessionManager Lib

/-- `SearchHandler`. Searching is public, and only looks at the store. -/
def SearchHandler.handler (lib : TextLibrary) (sorting : SearchHandler.Sorting) : Handler where
  getPublic := true
  handleGetRequest _ httpMessage _ :=
    Action.query fun db => SearchHandler.handleGetRequest lib sorting db httpMessage.queryString
  handlePutRequest := notImplemented
  handleDeleteRequest := notImplemented
  handlePostRequest := postNotImplemented

/-! ## Writes -/

/-- A write to what the server keeps. -/
inductive Write where
  | users (call : Call)
  | tokens (call : SessionCall)
  | picture (id : Long) (contents : Option Text)

/-- What a write leaves, also when its call throws. -/
def Write.run (env : Environment) (server : Server) : Write → Server
  | users call => { server with db := (exec server.db call).2 }
  | tokens call => { server with db := call.run env.clock server.db }
  | picture id contents =>
    match PictureHandler.getFilePath env id with
    | .error _ => server
    | .ok path => { server with files := Function.update server.files (cString path) contents }

/-- Who makes a request: the user of its session, if it has one, the mails that it presents with a
password, and the mails that Facebook vouches for. -/
structure Principal where
  user : Option Long
  presents : Text → Text → Prop
  vouched : Text → Prop

/-- The writes that the maker of a request may make. -/
inductive Permitted (principal : Principal) : Server → Write → Prop where
  | register {server : Server} (juser : Json) :
      Permitted principal server (.users (.savePerson juser (-1)))
  | login {server : Server} (now : Int) (token : Text) {userMail userPassword : Text}
      (hpresents : principal.presents userMail userPassword) :
      Permitted principal server (.tokens (.login now token userMail userPassword))
  | facebookLogin {server : Server} (now : Int) (token : Text) {userMail : Text}
      (hvouched : principal.vouched userMail) :
      Permitted principal server (.tokens (.facebookLogin now token userMail))
  | facebookStored {server : Server} (now : Int) (token : Text) {userMail : Text}
      {stored : Person}
      (hvouched : principal.vouched userMail)
      (hstored : getUserByMail server.db userMail = .ok stored) :
      Permitted principal server (.tokens (.facebookLogin now token stored.email))
  | refresh {server : Server} (now : Readings) (token : Text) :
      Permitted principal server (.tokens (.getSession now token))
  | update {server : Server} {userId : Long} {juser : Json} (huser : principal.user = some userId)
      (hown : ∀ newUser, Person.ofJson juser = .ok newUser → newUser.id = userId) :
      Permitted principal server (.users (.updateUser juser))
  | delete {server : Server} {userId : Long} (huser : principal.user = some userId) :
      Permitted principal server (.users (.deletePerson userId))
  | relate {server : Server} {userId : Long} {relation : Json}
      (huser : principal.user = some userId)
      (hown : (relation.member "author_id" >>= Json.asLargestInt) = .ok userId) :
      Permitted principal server (.users (.saveOrUpdateRelation relation))
  | recommend {server : Server} {userId : Long} {recommendation : Json}
      (huser : principal.user = some userId)
      (hown : (recommendation.member "from" >>= Json.asLargestInt) = .ok userId) :
      Permitted principal server (.users (.saveRecommendation recommendation))
  | takeBack {server : Server} {userId : Long} (huser : principal.user = some userId)
      (toUserId : Long) :
      Permitted principal server (.users (.removeRecommendation userId toUserId))
  | send {server : Server} {userId : Long} {now : Text} {request : Json}
      (huser : principal.user = some userId)
      (hown : (request.member "from" >>= Json.asLargestInt) = .ok userId) :
      Permitted principal server (.users (.saveMessage now request))
  | receive {server : Server} {userId : Long} (huser : principal.user = some userId)
      (toUserId : Long) (delivered : List MessagesManager.Message) :
      Permitted principal server (.users (.setMessagesAsReceived userId toUserId delivered))
  | notify {server : Server} {userId : Long} (huser : principal.user = some userId)
      (request : Json) :
      Permitted principal server (.users (.setOrUpdateNotificationToken request userId))
  | picture {server : Server} {userId : Long} (huser : principal.user = some userId)
      (contents : Option Text) : Permitted principal server (.picture userId contents)

/-- What somebody without a session may do, a user may do as well. -/
theorem Permitted.of_anonymous {anonymous principal : Principal} {server : Server} {write : Write}
    (huser : anonymous.user = none)
    (hpresents : ∀ userMail userPassword, anonymous.presents userMail userPassword →
      principal.presents userMail userPassword)
    (hvouched : ∀ userMail, anonymous.vouched userMail → principal.vouched userMail)
    (h : Permitted anonymous server write) : Permitted principal server write := by
  have hnobody : ∀ {userId : Long}, anonymous.user ≠ some userId := by
    intro userId hsome
    rw [huser] at hsome
    cases hsome
  cases h with
  | register juser => exact .register juser
  | login now token h => exact .login now token (hpresents _ _ h)
  | facebookLogin now token h => exact .facebookLogin now token (hvouched _ h)
  | facebookStored now token h hstored => exact .facebookStored now token (hvouched _ h) hstored
  | refresh now token => exact .refresh now token
  | update hsome => exact absurd hsome hnobody
  | delete hsome => exact absurd hsome hnobody
  | relate hsome => exact absurd hsome hnobody
  | recommend hsome => exact absurd hsome hnobody
  | takeBack hsome => exact absurd hsome hnobody
  | send hsome => exact absurd hsome hnobody
  | receive hsome => exact absurd hsome hnobody
  | notify hsome => exact absurd hsome hnobody
  | picture hsome => exact absurd hsome hnobody

/-- One write that is permitted. -/
def Writes (env : Environment) (principal : Principal) (server next : Server) : Prop :=
  ∃ write, Permitted principal server write ∧ write.run env server = next

/-- Finitely many writes that are permitted. -/
abbrev Does (env : Environment) (principal : Principal) : Server → Server → Prop :=
  Relation.ReflTransGen (Writes env principal)

/-! ## Actions of handlers -/

section Rules

variable {R : Server → Server → Prop} {α : Type}

/-- A value of a computation without the server is what it computes. -/
theorem eq_ok_of_returns {result : Except Exn α} {value : α}
    (h : Returns (Action.ofExcept result) value) : result = .ok value := by
  obtain ⟨_, hvalue⟩ := h
  exact hvalue

/-- A handler adds no effect. -/
theorem within_handling {action : Action α} {handler : Exn → Except Exn α} (h : Within R action) :
    Within R (action.handling handler) := by
  intro server
  have hleft := Action.serve_handling_snd action handler server
  show R server ((action.handling handler).serve server).2
  rw [hleft]
  exact h server

/-- An operation of the managers has its own effect. -/
theorem within_onStore {operation : DB → Except Exn α × DB}
    (h : ∀ server : Server, R server { server with db := (operation server.db).2 }) :
    Within R (Action.onStore operation) :=
  h

variable [IsPreorder Server R]

/-- A computation without the server has none. -/
theorem within_ofExcept (result : Except Exn α) : Within R (Action.ofExcept result) :=
  .of_unchanged fun _ => rfl

/-- Neither has a query. -/
theorem within_query (operation : DB → Except Exn α) : Within R (Action.query operation) :=
  .of_unchanged fun _ => rfl

/-- What comes behind a computation without the server. -/
theorem within_bind_ofExcept {β : Type} {result : Except Exn α} {rest : α → Action β}
    (h : ∀ value, result = .ok value → Within R (rest value)) :
    Within R (Action.ofExcept result >>= rest) :=
  .bind (within_ofExcept result) fun value hvalue => h value (eq_ok_of_returns hvalue)

/-- What comes behind the check that the user who acts is the one of the session. -/
theorem within_own {session : Option Session} {userId : Long} {permitted : Long → Bool}
    (hpermitted : ∀ sessionUserId, permitted sessionUserId = true → sessionUserId = userId)
    {rest : Action Response}
    (h : session.map Session.userId = some userId → Within R rest) :
    Within R (do
      let sessionUserId ← Action.ofExcept (getUserId session)
      Action.ofExcept (require (permitted sessionUserId))
      rest) := by
  refine within_bind_ofExcept fun sessionUserId hsession =>
    within_bind_ofExcept fun _ hchecked => ?_
  cases session with
  | none => cases hsession
  | some session =>
      cases hsession
      refine h ?_
      cases hallowed : permitted session.userId with
      | true => exact congrArg some (hpermitted _ hallowed)
      | false =>
          rw [hallowed] at hchecked
          cases hchecked

end Rules

/-! ## The methods of the handlers -/

/-- The request is posted to a route. -/
def PostsTo (route : WebHandler.Route) (httpMessage : HttpMessage) : Prop :=
  WebHandler.route httpMessage.uri = route ∧ httpMessage.method = "POST".toList

/-- Who makes a request, with the session that was accepted. Only a login presents a password, and
only a sign-in with Facebook asks for its word. -/
def principal (env : Environment) (httpMessage : HttpMessage) (session : Option Session) :
    Principal where
  user := session.map Session.userId
  presents userMail userPassword := PostsTo .login httpMessage ∧
    ∃ body, parseBody env (requestBody httpMessage) = .ok body ∧
      body.stringMember "email" = .ok userMail ∧ body.stringMember "password" = .ok userPassword
  vouched userMail := PostsTo .facebookLogin httpMessage ∧
    ∃ created, facebookPerson env httpMessage = .ok created ∧ created.email = userMail

/-- On a request, the methods of a handler make only writes that its maker may make. -/
structure Handler.Obeys (env : Environment) (httpMessage : HttpMessage) (handler : Handler) :
    Prop where
  get : ∀ session url, Within (Does env (principal env httpMessage session))
    (handler.handleGetRequest session httpMessage url)
  put : ∀ session url, Within (Does env (principal env httpMessage session))
    (handler.handlePutRequest session httpMessage url)
  delete : ∀ session url, Within (Does env (principal env httpMessage session))
    (handler.handleDeleteRequest session httpMessage url)
  post : ∀ session, httpMessage.method = "POST".toList →
    Within (Does env (principal env httpMessage session))
      (handler.handlePostRequest session httpMessage)

section Methods

variable {env : Environment} {httpMessage : HttpMessage}

/-- Who is the same person has the same id. -/
theorem samePerson_eq {left right : Long} (h : Security.samePerson left right = true) :
    left = right :=
  of_decide_eq_true h

/-- A write that is permitted. -/
theorem does_of_permitted {principal : Principal} {server : Server} {write : Write}
    (h : Permitted principal server write) : Does env principal server (write.run env server) :=
  .single ⟨write, h, rfl⟩

/-- The user that a profile is saved for is the one whose id was set. -/
theorem id_of_setMember {parsedBody juser : Json} {userId : Long} {newUser : Person}
    (hset : parsedBody.setMember "id" (.ofLong userId) = .ok juser)
    (hread : Person.ofJson juser = .ok newUser) : newUser.id = userId := by
  have hmember : juser.member "id" = .ok (.ofLong userId) := by
    cases parsedBody with
    | null =>
        cases hset
        simp [Json.member, Json.find]
    | object members =>
        cases hset
        simp [Json.member, Json.find_insertMember]
    | _ => cases hset
  simp only [Person.ofJson, hmember, bind_eq_ok] at hread
  obtain ⟨_, hsame, id, hid, hread⟩ := hread
  cases hsame
  rw [Json.asLargestInt_ofLong] at hid
  cases hid
  -- twenty-one other readings follow
  iterate 21 obtain ⟨_, -, hread⟩ := hread
  cases hread
  rfl

/-! Reading: what these methods do stays within any preorder. -/

section Reading

variable {R : Server → Server → Prop} [IsPreorder Server R]

/-- Reading a profile changes nothing. -/
theorem within_users_get (session : Option Session) (httpMessage : HttpMessage) (url : Text) :
    Within R (UsersHandler.handleGetRequest session httpMessage url) := by
  refine within_handling (within_bind_ofExcept fun userId _ => ?_)
  refine .bind (within_query _) fun person _ => .bind (within_query _) fun _ _ => ?_
  exact within_bind_ofExcept fun body _ => .pure _

/-- Reading a picture changes nothing. -/
theorem within_picture_get (session : Option Session) (httpMessage : HttpMessage) (url : Text) :
    Within R (PictureHandler.handleGetRequest env session httpMessage url) := by
  refine within_handling (within_bind_ofExcept fun userId _ => ?_)
  refine within_bind_ofExcept fun path _ => .of_unchanged fun server => ?_
  dsimp only [StateT.run, ExceptT.run, ExceptT.mk]
  split <;> rfl

/-- Reading contacts changes nothing. -/
theorem within_contacts_get (session : Option Session) (httpMessage : HttpMessage) (url : Text) :
    Within R (ContactsHandler.handleGetRequest session httpMessage url) := by
  refine within_handling (within_bind_ofExcept fun userId _ => ?_)
  exact .bind (within_query _) fun _ _ => .bind (within_query _) fun _ _ => .pure _

/-- Reading conversations changes nothing. -/
theorem within_conversations_get (session : Option Session) (httpMessage : HttpMessage)
    (url : Text) :
    Within R (ConversationsHandler.handleGetRequest session httpMessage url) := by
  refine within_handling (within_bind_ofExcept fun userId _ => ?_)
  refine within_own (fun _ => samePerson_eq) fun _ => ?_
  exact .bind (within_query _) fun conversations _ => .pure _

/-- Looking for a picture changes nothing. -/
theorem within_existsPictureForId (id : Long) :
    Within R (PictureHandler.existsPictureForId env id) :=
  within_bind_ofExcept fun _ _ => .of_unchanged fun _ => rfl

end Reading

/-- The handler of users makes only writes that are permitted. -/
theorem obeys_users : (UsersHandler.handler env).Obeys env httpMessage where
  get session url := within_users_get session httpMessage url
  put session url := by
    refine within_bind_ofExcept fun userId _ =>
      within_own (fun _ => samePerson_eq) fun hsession => ?_
    refine within_handling (within_bind_ofExcept fun parsedBody _ => ?_)
    refine within_bind_ofExcept fun juser hset => .bind ?_ fun _ _ => .pure _
    exact within_onStore fun _ => does_of_permitted
      (.update hsession fun newUser hread => id_of_setMember hset hread)
  delete session url := by
    refine within_handling (within_bind_ofExcept fun userId _ => ?_)
    refine within_own (fun _ => samePerson_eq) fun hsession => .bind ?_ fun _ _ => .pure _
    exact within_onStore fun _ => does_of_permitted (.delete hsession)
  post session hmethod := by
    refine within_handling (within_bind_ofExcept fun parsedBody _ => .bind ?_ fun _ _ => .pure _)
    exact within_onStore fun _ => does_of_permitted (.register parsedBody)

/-- The owner of a picture writes or removes its file. -/
theorem does_picture {session : Option Session} {userId : Long} {path : Text}
    (hsession : session.map Session.userId = some userId)
    (hpath : PictureHandler.getFilePath env userId = .ok path) (contents : Option Text)
    (server : Server) :
    Does env (principal env httpMessage session) server
      { server with files := Function.update server.files (cString path) contents } := by
  have hpermitted : Permitted (principal env httpMessage session) server
      (.picture userId contents) :=
    .picture hsession contents
  have hwrite : Does env (principal env httpMessage session) server _ :=
    does_of_permitted hpermitted
  rwa [Write.run, hpath] at hwrite

/-- A picture is deleted for its own user. -/
theorem within_deletePicture {session : Option Session} {userId : Long}
    (hsession : session.map Session.userId = some userId) :
    Within (Does env (principal env httpMessage session))
      (PictureHandler.deletePicture env userId) := by
  refine within_bind_ofExcept fun path hpath => ?_
  intro server
  dsimp only [StateT.run, ExceptT.run, ExceptT.mk]
  split
  · exact .refl
  · exact does_picture hsession hpath none server

/-- A picture is saved for its own user. -/
theorem within_savePicture {session : Option Session} {userId : Long}
    (hsession : session.map Session.userId = some userId) (body : Text) (size : Nat) :
    Within (Does env (principal env httpMessage session))
      (PictureHandler.savePicture env userId body size) := by
  refine within_bind_ofExcept fun path hpath => within_bind_ofExcept fun charactersCounter _ => ?_
  exact .ite (fun _ => .throw _) fun _ => does_picture hsession hpath _

/-- The handler of pictures makes only writes that are permitted. -/
theorem obeys_picture : (PictureHandler.handler env).Obeys env httpMessage where
  get session url := within_picture_get session httpMessage url
  put session url := by
    refine within_bind_ofExcept fun userId _ =>
      within_own (fun _ => samePerson_eq) fun hsession => ?_
    refine .bind (within_existsPictureForId userId) fun found _ => ?_
    have hsave : ∀ _ : Unit, Within (Does env (principal env httpMessage session)) (do
        PictureHandler.savePicture env userId httpMessage.body httpMessage.bodyLen
        return ({} : Response).setSuccessfulHeader) := fun _ =>
      .bind (within_savePicture hsession _ _) fun _ _ => .pure _
    exact .ite (fun _ => .bind (within_deletePicture hsession) fun value _ => hsave value)
      fun _ => hsave ()
  delete session url := by
    refine within_bind_ofExcept fun userId _ =>
      within_own (fun _ => samePerson_eq) fun hsession => ?_
    refine .bind (within_existsPictureForId userId) fun found _ =>
      .ite (fun _ => .pure _) fun _ => ?_
    exact .bind (within_deletePicture hsession) fun _ _ => .pure _
  post _ _ := .pure _

/-- So does the handler of contacts. -/
theorem obeys_contacts : (ContactsHandler.handler env).Obeys env httpMessage where
  get session url := within_contacts_get session httpMessage url
  put session url := by
    refine within_handling (within_bind_ofExcept fun parsedBody _ => ?_)
    refine within_bind_ofExcept fun _ _ => within_bind_ofExcept fun _ _ => ?_
    refine within_bind_ofExcept fun _ _ => within_bind_ofExcept fun authorId hauthor => ?_
    refine within_own (fun _ hsame => (samePerson_eq hsame).symm) fun hsession => ?_
    refine .bind (within_onStore fun _ => does_of_permitted (.relate hsession hauthor))
      fun _ _ => ?_
    refine within_bind_ofExcept fun action _ => ?_
    refine .ite (fun _ => .bind (within_handling (within_query _)) fun _ _ => .pure _) fun _ =>
      .pure _
  delete _ _ := .pure _
  post _ _ := .pure _

/-- So does the handler of recommendations. -/
theorem obeys_recommendations : (RecommendationsHandler.handler env).Obeys env httpMessage where
  get _ _ := .pure _
  put session url := by
    refine within_handling (within_bind_ofExcept fun parsedBody _ => ?_)
    refine within_bind_ofExcept fun _ _ => within_bind_ofExcept fun _ _ => ?_
    refine within_bind_ofExcept fun userId hfrom => ?_
    refine within_own (fun _ => samePerson_eq) fun hsession => .bind ?_ fun _ _ => .pure _
    exact within_onStore fun _ => does_of_permitted (.recommend hsession hfrom)
  delete session url := by
    refine within_handling (within_bind_ofExcept fun fromUserId _ => ?_)
    refine within_bind_ofExcept fun toUserId _ => ?_
    refine within_own (fun _ => samePerson_eq) fun hsession => .bind ?_ fun _ _ => .pure _
    exact within_onStore fun _ => does_of_permitted (.takeBack hsession toUserId)
  post _ _ := .pure _

/-- So does the handler of messages. -/
theorem obeys_messages : (MessagesHandler.handler env).Obeys env httpMessage where
  get session url := by
    refine within_handling (within_bind_ofExcept fun fromUserId _ => ?_)
    refine within_own (fun _ hsame => (samePerson_eq hsame).symm) fun hsession => ?_
    refine within_bind_ofExcept fun toUserId _ => .bind (within_query _) fun messages _ => ?_
    refine within_bind_ofExcept fun window _ => .bind ?_ fun _ _ => .pure _
    exact within_onStore fun _ =>
      does_of_permitted (.receive hsession toUserId window.messagesToReturn)
  put session url := by
    refine within_handling (within_bind_ofExcept fun parsedBody _ => ?_)
    refine within_bind_ofExcept fun _ _ => within_bind_ofExcept fun _ _ => ?_
    refine within_bind_ofExcept fun _ _ => within_bind_ofExcept fun userId hfrom => ?_
    refine within_own (fun _ => samePerson_eq) fun hsession => .bind ?_ fun savedMessage _ => ?_
    · exact within_onStore fun _ => does_of_permitted (.send hsession hfrom)
    · exact .bind (within_handling (within_query _)) fun _ _ => .pure _
  delete _ _ := .pure _
  post _ _ := .pure _

/-- So does the handler of conversations. -/
theorem obeys_conversations : ConversationsHandler.handler.Obeys env httpMessage where
  get session url := within_conversations_get session httpMessage url
  put _ _ := .pure _
  delete _ _ := .pure _
  post _ _ := .pure _

/-- So does the handler of notification tokens. -/
theorem obeys_notificationToken :
    (NotificationTokenHandler.handler env).Obeys env httpMessage where
  get _ _ := .pure _
  put session url := by
    refine within_handling (within_bind_ofExcept fun userId _ => ?_)
    refine within_own (fun _ => samePerson_eq) fun hsession => ?_
    refine within_bind_ofExcept fun parsedBody _ => .bind ?_ fun _ _ => .pure _
    exact within_onStore fun _ => does_of_permitted (.notify hsession parsedBody)
  delete _ _ := .pure _
  post _ _ := .pure _

/-- So does the login. -/
theorem obeys_login (hroute : WebHandler.route httpMessage.uri = .login) :
    (LoginHandler.handler env).Obeys env httpMessage where
  get _ _ := .pure _
  put _ _ := .pure _
  delete _ _ := .pure _
  post session hmethod := by
    refine within_handling (within_bind_ofExcept fun body hbody => ?_)
    refine within_bind_ofExcept fun _ _ => within_bind_ofExcept fun _ _ => ?_
    refine within_bind_ofExcept fun userMail hmail =>
      within_bind_ofExcept fun userPassword hpass => ?_
    refine .bind ?_ fun userToken _ => .bind (within_query _) fun userId _ => .pure _
    have hpresents : (principal env httpMessage session).presents userMail userPassword :=
      ⟨⟨hroute, hmethod⟩, body, hbody, hmail, hpass⟩
    exact within_onStore fun _ => does_of_permitted (.login _ _ hpresents)

/-- A sign-in with Facebook, once the account is there. -/
theorem does_facebookLogin {principal : Principal} {server : Server} {person : Person}
    (hpermitted : Permitted principal server
      (.tokens (.facebookLogin env.loginTime env.newToken person.email)))
    (answer : Text → Response) :
    Does env principal server (Action.serve (do
      let userToken ← Action.onStore fun db =>
        facebookLogin env.clock db env.loginTime env.newToken person.email
      return answer userToken) server).2 := by
  have hlogin : Does env principal server { server with
      db := (facebookLogin env.clock server.db env.loginTime env.newToken person.email).2 } :=
    does_of_permitted hpermitted
  rw [Action.serve_bind, Action.serve_onStore]
  cases (facebookLogin env.clock server.db env.loginTime env.newToken person.email).1 with
  | error e => exact hlogin
  | ok userToken => exact hlogin

/-- So does the login with Facebook. -/
theorem obeys_loginWithFacebook (hroute : WebHandler.route httpMessage.uri = .facebookLogin) :
    (LoginWithFacebookHandler.handler env).Obeys env httpMessage where
  get _ _ := .pure _
  put _ _ := .pure _
  delete _ _ := .pure _
  post session hmethod := by
    show Within _ (LoginWithFacebookHandler.handlePostRequest env session httpMessage)
    rw [handlePostRequest_eq]
    refine within_handling (within_bind_ofExcept fun created hcreated server => ?_)
    have hvouched : (principal env httpMessage session).vouched created.email :=
      ⟨⟨hroute, hmethod⟩, created, hcreated, rfl⟩
    show Does env _ server (Action.serve (_ >>= _) server).2
    cases hthere : userExistsMail server.db created.email with
    | true =>
        -- the account under the mail, whose record holds the mail that signs in
        have hfound := serve_findOrCreate_there hthere
        cases hread : getUserByMail server.db created.email with
        | error e =>
            rw [hread] at hfound
            rw [Action.serve_bind_error hfound]
        | ok stored =>
            rw [hread] at hfound
            rw [Action.serve_bind_ok hfound]
            exact does_facebookLogin (.facebookStored _ _ hvouched hread) _
    | false =>
        have hfound := serve_findOrCreate_free hthere
        have hregister : Does env (principal env httpMessage session) server _ :=
          does_of_permitted (.register created.serializeMe)
        cases hsaved : (savePerson server.db created.serializeMe (-1)).1 with
        | error e =>
            rw [hsaved] at hfound
            rw [Action.serve_bind_error hfound]
            exact hregister
        | ok personId =>
            rw [hsaved] at hfound
            rw [Action.serve_bind_ok hfound]
            exact hregister.trans (does_facebookLogin (.facebookLogin _ _ hvouched) _)

/-- So does the search. -/
theorem obeys_search (lib : TextLibrary) (sorting : SearchHandler.Sorting) :
    (SearchHandler.handler lib sorting).Obeys env httpMessage where
  get _ _ := within_query _
  put _ _ := .pure _
  delete _ _ := .pure _
  post _ _ := .pure _

end Methods

/-! ## Whole requests -/

section Requests

variable {env : Environment} {httpMessage : HttpMessage}

/-- The session that a request presents, when it is accepted. -/
def acceptedSession (env : Environment) (httpMessage : HttpMessage) (server : Server) :
    Option Session :=
  ((controlAccess env httpMessage).serve server).1.toOption

/-- The access control refreshes the token that is presented. -/
theorem within_controlAccess {principal : Principal} :
    Within (Does env principal) (controlAccess env httpMessage) :=
  .ite (fun _ => .throw _) fun _ =>
    within_onStore fun _ => does_of_permitted (.refresh env.readings _)

/-- A method behind the check of the session, when what the check and the method do is within what
the session allows. -/
theorem method_within {R : Option Session → Server → Server → Prop}
    [∀ session, IsPreorder Server (R session)]
    (hnone : ∀ session server next, R none server next → R session server next)
    (haccess : ∀ session, Within (R session) (controlAccess env httpMessage)) (isPublic : Bool)
    {method : Option Session → Action Response}
    (hmethod : ∀ session, Within (R session) (method session)) (server : Server) :
    R (acceptedSession env httpMessage server) server
      (Action.serve (sessionFor env isPublic httpMessage >>= method) server).2 := by
  cases isPublic with
  | true => exact hnone _ _ _ (hmethod none server)
  | false =>
      rcases hserve : (controlAccess env httpMessage).serve server with ⟨result, next⟩
      have hchecked : ∀ session, R session server next := by
        intro session
        have hcontrol : R session server ((controlAccess env httpMessage).serve server).2 :=
          haccess session server
        rwa [hserve] at hcontrol
      have hsession : sessionFor env false httpMessage
          = (controlAccess env httpMessage >>= fun session => pure (some session)) := rfl
      rw [hsession]
      cases result with
      | error e =>
          rw [Action.serve_bind_error (Action.serve_bind_error hserve)]
          exact hchecked _
      | ok session =>
          have hfirst : Action.serve (do
              let session ← controlAccess env httpMessage
              return some session) server = (.ok (some session), next) :=
            Action.serve_bind_ok hserve
          have haccepted : acceptedSession env httpMessage server = some session := by
            rw [acceptedSession, hserve]
            rfl
          rw [Action.serve_bind_ok hfirst, haccepted]
          exact trans_of _ (hchecked _) (hmethod (some session) next)

/-- What is permitted without a session is permitted with one. -/
theorem does_of_anonymous (session : Option Session) {server next : Server}
    (h : Does env (principal env httpMessage none) server next) :
    Does env (principal env httpMessage session) server next := by
  refine Relation.ReflTransGen.mono ?_ _ _ h
  rintro reached last ⟨write, hpermitted, hrun⟩
  have hnobody : (principal env httpMessage none).user = none := rfl
  exact ⟨write, .of_anonymous hnobody (fun _ _ h => h) (fun _ h => h) hpermitted, hrun⟩

/-- A method makes its writes for whoever was let in. -/
theorem does_method (isPublic : Bool) {method : Option Session → Action Response}
    (h : ∀ session, Within (Does env (principal env httpMessage session)) (method session))
    (server : Server) :
    Does env (principal env httpMessage (acceptedSession env httpMessage server)) server
      (Action.serve (sessionFor env isPublic httpMessage >>= method) server).2 := by
  exact @method_within _ _ (fun session => Does env (principal env httpMessage session)) _
    (fun session _ _ hnone => does_of_anonymous session hnone) (fun _ => within_controlAccess)
    isPublic _ h server

/-- A handler that obeys makes only writes that are permitted to the maker of the request. -/
theorem does_handler {handler : Handler} (h : handler.Obeys env httpMessage) (url : Text)
    (server : Server) :
    Does env (principal env httpMessage (acceptedSession env httpMessage server)) server
      ((handler.handleRequest env httpMessage url).serve server).2 := by
  rw [Handler.handleRequest, Action.serve_handling_snd]
  split
  · exact does_method _ (fun session => h.get session url) server
  · split
    · exact does_method _ (fun session => h.put session url) server
    · split
      · exact does_method _ (fun session => h.delete session url) server
      · split
        · rename_i hmethod
          exact does_method _ (fun session => h.post session hmethod) server
        · exact .refl

/-- The handler of every route obeys. -/
theorem obeys_handlerOf {searchHandler handler : Handler}
    (hsearch : searchHandler.Obeys env httpMessage)
    (h : WebHandler.handlerOf env searchHandler (WebHandler.route httpMessage.uri)
      = some handler) :
    handler.Obeys env httpMessage := by
  cases hroute : WebHandler.route httpMessage.uri with
  | users => rw [hroute] at h; cases h; exact obeys_users
  | picture => rw [hroute] at h; cases h; exact obeys_picture
  | contacts => rw [hroute] at h; cases h; exact obeys_contacts
  | login => rw [hroute] at h; cases h; exact obeys_login hroute
  | facebookLogin => rw [hroute] at h; cases h; exact obeys_loginWithFacebook hroute
  | recommendations => rw [hroute] at h; cases h; exact obeys_recommendations
  | messages => rw [hroute] at h; cases h; exact obeys_messages
  | conversations => rw [hroute] at h; cases h; exact obeys_conversations
  | notificationTokens => rw [hroute] at h; cases h; exact obeys_notificationToken
  | search => rw [hroute] at h; cases h; exact hsearch
  | special => rw [hroute] at h; cases h
  | unknown => rw [hroute] at h; cases h

/-- Whatever a request asks for, whoever sends it and however it ends, what it does to the server
is a sequence of writes that are permitted to its maker. -/
theorem does_handleRequest (lib : TextLibrary) (sorting : SearchHandler.Sorting)
    (env : Environment)
    (httpMessage : HttpMessage) (server : Server) :
    Does env (principal env httpMessage (acceptedSession env httpMessage server)) server
      ((WebHandler.handleRequest env (SearchHandler.handler lib sorting) httpMessage).serve
        server).2 := by
  rw [WebHandler.handleRequest, Action.serve_handling_snd]
  split
  · rename_i handler hroute
    exact does_handler (obeys_handlerOf (obeys_search lib sorting) hroute) _ server
  · split
    · exact .refl
    · exact .refl

end Requests

end TallerII
