import TallerII.ContactLists
import TallerII.Conversations
import TallerII.Handlers
import TallerII.Lib.Clients
import TallerII.Searches

/-!
# The contact button of a profile

`PerfilActivity` of the app, with `Contact`, `ContactsResponse` and `Solicitud`. The button asks
the server for the contacts of the connected user, offers what fits the status of the user whose
profile is shown, and sends what the user chose. `estado_of_answer` says what an answer tells the
app, and `serve_handlePutRequest` that the server does for a request of the app what its call
does.
-/

namespace TallerII

open Lib

/-! ## What the app sends and reads -/

namespace Solicitud

/-- `Solicitud.Action`. -/
inductive Action where
  | unfriend
  | add
  | accept
deriving Repr, DecidableEq

/-- The names that `SerializedName` gives the actions. -/
def Action.text : Action → Text
  | unfriend => "remove_contact".toList
  | add => "add_contact".toList
  | accept => "accept_contact".toList

/-- What the server makes of an action. -/
def Action.served : Action → RelationsManager.Action
  | unfriend => .remove
  | add => .add
  | accept => .accept

end Solicitud

/-- `Solicitud`. -/
structure Solicitud where
  authorId : Long
  contactId : Long
  action : Solicitud.Action
deriving Repr, DecidableEq

namespace Solicitud

/-- `toJsonObject`. -/
def toJson (solicitud : Solicitud) : Json :=
  Json.ofMembers [
    ("author_id", .ofLong solicitud.authorId),
    ("contact_id", .ofLong solicitud.contactId),
    ("action", .string solicitud.action.text)]

/-- The act that the server is asked for. -/
def act (solicitud : Solicitud) : RelationsManager.Act where
  authorId := solicitud.authorId
  contactId := solicitud.contactId
  action := solicitud.action.served

/-- The server reads what the app meant. -/
theorem actOf_toJson (solicitud : Solicitud) :
    PersonManager.actOf solicitud.toJson = some solicitud.act := by
  obtain ⟨authorId, contactId, action⟩ := solicitud
  have haction : RelationsManager.Action.ofText action.text = some action.served := by
    cases action <;> decide
  simp [PersonManager.actOf, toJson, act, Json.assigned, haction]

end Solicitud

namespace ContactsResponse

/-- `Contact.Status`. -/
inductive Status where
  | none
  | requested
  | received
  | active
deriving Repr, DecidableEq

namespace Status

/-- The status that `SerializedName` gives a text to. -/
def ofText (text : Text) : Option Status :=
  if text = [] then some .none
  else if text = "requested".toList then some .requested
  else if text = "received".toList then some .received
  else if text = "active".toList then some .active
  else Option.none

/-- How the app sees a link of the network. -/
def ofLink (link : Option Text) : Status :=
  (link.bind ofText).getD .none

/-- The status that the other user sees. -/
def mirrored : Status → Status
  | none => .none
  | requested => .received
  | received => .requested
  | active => .active

end Status

/-- What the app keeps of a contact in an answer. -/
structure Contact where
  id : Long
  status : Status
deriving Repr, DecidableEq

/-- The member that Gson reads into a field. -/
def field (value : Json) (name : String) : Option Json :=
  match value with
  | .object members => Json.find name members
  | _ => none

/-- A contact as Gson reads it. -/
def Contact.ofJson (value : Json) : Option Contact :=
  match field value "id", field value "status" with
  | some (.int id), some (.string status) =>
    if -2 ^ 63 ≤ id ∧ id < 2 ^ 63 then
      (Status.ofText status).map fun status => { id := Int64.ofInt id, status }
    else none
  | _, _ => none

/-- `parseJSON`. Without the member the list stays empty. -/
def parseJSON (response : Json) : Option (List Contact) :=
  match field response "contacts" with
  | some (.array contacts) => contacts.mapM Contact.ofJson
  | some _ => none
  | none => some []

/-- `getStatusForId`. -/
def getStatusForId (contacts : List Contact) (idRequester : Long) : Status :=
  match contacts.find? (·.id = idRequester) with
  | some contact => contact.status
  | none => .none

end ContactsResponse

/-! ## The activity -/

namespace PerfilActivity

open ContactsResponse PersonManager RelationsManager

/-- An activity that shows a profile. -/
structure Perfil where
  activity : Nat
  connectedUserID : Long
  fetchedUserID : Long
deriving Repr, DecidableEq

/-- The listeners that wait for contacts: that of `fillProfile` and that of the button. -/
inductive Listener where
  | fillProfile
  | modificarAmistad
deriving Repr, DecidableEq

/-- A request for contacts, by the activity that waits for them. -/
structure Consulta where
  perfil : Perfil
  listener : Listener
deriving Repr, DecidableEq

/-- Whose contacts are asked for. -/
def Consulta.userId (consulta : Consulta) : Long :=
  match consulta.listener with
  | .fillProfile => consulta.perfil.fetchedUserID
  | .modificarAmistad => consulta.perfil.connectedUserID

/-- Whom the listener looks up in them. -/
def Consulta.otherId (consulta : Consulta) : Long :=
  match consulta.listener with
  | .fillProfile => consulta.perfil.connectedUserID
  | .modificarAmistad => consulta.perfil.fetchedUserID

/-- The status that the listener colours the button with. -/
def Consulta.estado (consulta : Consulta) (response : List ContactsResponse.Contact) : Status :=
  getStatusForId response consulta.otherId

/-- The actions in the dialog that `modificarAmistad` shows. -/
def acciones : Status → List Solicitud.Action
  | .none => [.add]
  | .requested => [.unfriend]
  | .received => [.accept, .unfriend]
  | .active => [.unfriend]

/-- `nuevoEstado` of `enviarModificacionDeAmistad`. -/
def nuevoEstado : Solicitud.Action → Status
  | .accept => .active
  | .add => .requested
  | .unfriend => .none

/-- What the activity sends for an action. -/
def Perfil.solicitud (perfil : Perfil) (action : Solicitud.Action) : Solicitud where
  authorId := perfil.connectedUserID
  contactId := perfil.fetchedUserID
  action := action

/-- The colour of the button of every activity. -/
abbrev Botones := Perfil → Status

/-- `colorearBotonAmistad`. -/
def colorearBotonAmistad (botones : Botones) (perfil : Perfil) (estado : Status) : Botones :=
  Function.update botones perfil estado

end PerfilActivity

/-- The contacts of a user as `handleGetRequest` answers them. -/
def ContactsHandler.responseBody (db : DB) (userId : Long) : Except Exn Json := do
  let contacts ← PersonManager.getContactsByUserId db userId
  ContactsHandler.contactsBody db contacts

namespace PerfilActivity

open ContactsResponse PersonManager RelationsManager

/-- The app and the server. The acts of the users for whom `inApp` holds come from the app only;
all other users may send the server what they like. -/
def clients (inApp : Long → Prop) :
    Clients DB (Call × Outcome) Consulta (List ContactsResponse.Contact)
    (Perfil × Solicitud.Action)
      Botones where
  steps := Answers
  answer db consulta := (ContactsHandler.responseBody db consulta.userId).toOption.bind parseJSON
  asks consulta := consulta.listener = .modificarAmistad →
    consulta.perfil.fetchedUserID ≠ consulta.perfil.connectedUserID
  offers consulta response :=
    match consulta.listener with
    | .fillProfile => []
    | .modificarAmistad => (acciones (consulta.estado response)).map fun action =>
      (consulta.perfil, action)
  serves request answered :=
    answered.1 = .saveOrUpdateRelation (request.1.solicitud request.2).toJson
  succeeds answered := answered.2.isOk
  own answered := ∃ act, acted answered = some act ∧ inApp act.authorId
  display botones consulta response :=
    colorearBotonAmistad botones consulta.perfil (consulta.estado response)
  confirm botones request := colorearBotonAmistad botones request.1 (nuevoEstado request.2)

/-- A state of the app and the server. -/
abbrev System :=
  Clients.State DB (Call × Outcome) Consulta (List ContactsResponse.Contact)
    (Perfil × Solicitud.Action) Botones

/-- What can happen to the app and the server. -/
abbrev Evento :=
  Clients.Event (Call × Outcome) Consulta (List ContactsResponse.Contact)
    (Perfil × Solicitud.Action)

/-- An empty store, and nothing sent. -/
def System.initial : System :=
  Clients.State.initial ∅ fun _ => .none

/-- Nothing happened between the users of an act since. -/
def Undisturbed (since : List (Call × Outcome)) (made : Call × Outcome) : Prop :=
  ∀ act, acted made = some act → ∀ later ∈ acts since, ¬ later.Between act.authorId act.contactId

variable {db : DB}

/-! ## What an answer says -/

/-- The values that were read are those of the items. -/
theorem mem_of_mapM_eq_some {α β : Type} {read : α → Option β} {items : List α} {values : List β}
    (h : items.mapM read = some values) {value : β} :
    value ∈ values ↔ ∃ item ∈ items, read item = some value := by
  induction items generalizing values with
  | nil =>
      cases h
      simp
  | cons item items ih =>
      simp only [List.mapM_cons, bind, Option.bind_eq_some_iff] at h
      obtain ⟨first, hfirst, rest, hrest, hvalues⟩ := h
      cases hvalues
      simp [ih hrest, hfirst, eq_comm]

/-- When all items were read, so was each. -/
theorem exists_of_mapM_eq_ok {α β : Type} {read : α → Except Exn β} {items : List α}
    {values : List β} (h : items.mapM read = .ok values) {item : α} (hitem : item ∈ items) :
    ∃ value, read item = .ok value := by
  induction items generalizing values with
  | nil => cases hitem
  | cons first items ih =>
      simp only [List.mapM_cons, bind_eq_ok] at h
      obtain ⟨value, hvalue, rest, hrest, -⟩ := h
      rcases List.mem_cons.mp hitem with rfl | hlater
      · exact ⟨value, hvalue⟩
      · exact ih hrest hlater

/-- A field is the member that was assigned last. -/
theorem field_ofMembers (members : List (String × Json)) (name : String) :
    field (Json.ofMembers members) name = Json.assigned name members := by
  have hfind := Json.find_foldl_insertMember name members []
  simp only [Json.find, Option.or_none] at hfind
  simp only [Json.ofMembers]
  split
  · rename_i hnil
    rw [hnil] at hfind
    exact hfind
  · exact hfind

/-- The app reads a contact as the server shows it. -/
theorem ofJson_contactAsJson (contact : RelationsManager.Contact) (person : Person) :
    ContactsResponse.Contact.ofJson (ContactsHandler.contactAsJson contact person)
      = (Status.ofText contact.status).map fun status => { id := person.id, status } := by
  have hrange : -2 ^ 63 ≤ person.id.toInt ∧ person.id.toInt < 2 ^ 63 :=
    ⟨Int64.le_toInt person.id, Int64.toInt_lt person.id⟩
  have hjob : Json.assigned "id" (person.getCurrentJob.toList.map fun currentJob =>
      ("current_job", currentJob.serializeMe)) = none := by
    cases person.getCurrentJob <;> rfl
  have hid : field (ContactsHandler.contactAsJson contact person) "id"
      = some (.int person.id.toInt) := by
    rw [ContactsHandler.contactAsJson, field_ofMembers]
    simp [Json.assigned_append, Json.assigned, hjob, Json.ofLong]
  have hstatus : field (ContactsHandler.contactAsJson contact person) "status"
      = some (.string contact.status) := by
    rw [ContactsHandler.contactAsJson, field_ofMembers]
    simp [Json.assigned_append, Json.assigned]
  simp only [ContactsResponse.Contact.ofJson, hid, hstatus, if_pos hrange, Int64.ofInt_toInt]

/-- The app finds in an answer the contacts of the user with their statuses. -/
theorem mem_parseJSON {contacts : List RelationsManager.Contact} {body : Json}
    (hconsistent : Consistent db) (hbody : ContactsHandler.contactsBody db contacts = .ok body)
    {response : List ContactsResponse.Contact} (hresponse : parseJSON body = some response)
    {shown : ContactsResponse.Contact} :
    shown ∈ response ↔ ∃ contact ∈ contacts, contact.userId = shown.id ∧
      Status.ofText contact.status = some shown.status := by
  simp only [ContactsHandler.contactsBody, bind_eq_ok] at hbody
  obtain ⟨items, hitems, hbody⟩ := hbody
  cases hbody
  have hfield : parseJSON (Json.ofMembers
      (("metadata", Json.ofMembers [("count", .int contacts.length)]) ::
        Json.appendedMember "contacts" items)) = items.mapM ContactsResponse.Contact.ofJson := by
    rw [parseJSON, field_ofMembers, Json.assigned, Json.assigned_appendedMember]
    cases items with
    | nil => rfl
    | cons item items => rfl
  have hresponse : items.mapM ContactsResponse.Contact.ofJson = some response :=
    hfield.symm.trans hresponse
  rw [mem_of_mapM_eq_some hresponse]
  constructor
  · rintro ⟨item, hitem, hread⟩
    obtain ⟨contact, hcontact, hshown⟩ := (mem_of_mapM_eq_ok hitems).mp hitem
    obtain ⟨person, hperson, hsame⟩ := bind_eq_ok.mp hshown
    cases hsame
    rw [ofJson_contactAsJson, Option.map_eq_some_iff] at hread
    obtain ⟨status, hstatus, rfl⟩ := hread
    exact ⟨contact, hcontact, (hconsistent.getUserById_eq_ok.mp hperson).2.2.symm, hstatus⟩
  · rintro ⟨contact, hcontact, hid, hstatus⟩
    obtain ⟨item, hitem⟩ := exists_of_mapM_eq_ok hitems hcontact
    refine ⟨item, (mem_of_mapM_eq_ok hitems).mpr ⟨contact, hcontact, hitem⟩, ?_⟩
    obtain ⟨person, hperson, hsame⟩ := bind_eq_ok.mp hitem
    cases hsame
    rw [ofJson_contactAsJson, hstatus, (hconsistent.getUserById_eq_ok.mp hperson).2.2, hid]
    rfl

/-! ## The status between two users -/

/-- The status that a user sees after an act. -/
def estadoTras (act : Act) (user : Long) : Status :=
  Status.ofLink (contactNetwork.seenBy user act)

/-- The status that a user sees of another one after some acts. -/
def statusAfter (made : List Act) (user other : Long) : Status :=
  ((lastThat (contactNetwork.between user other) made).map (estadoTras · user)).getD .none

/-- The status of a contact in the list of a user on the server. -/
def statusIn (db : DB) (user other : Long) : Status :=
  match RelationsManager.getContactsByUserId db user with
  | .ok contacts => Status.ofLink ((contacts.find? (·.userId = other)).map (·.status))
  | .error _ => .none

/-- What a user sees after each action. -/
theorem estadoTras_eq (act : Act) (user : Long) :
    estadoTras act user =
      match act.action with
      | .add => if act.authorId = user then .requested else .received
      | .accept => .active
      | .remove => .none := by
  obtain ⟨authorId, contactId, action⟩ := act
  show Status.ofLink (if authorId = user then action.authorStatus else action.contactStatus) = _
  cases action <;> split <;> simp_all <;> decide

/-- A request was received after an add by somebody else. -/
theorem estadoTras_eq_received {act : Act} {user : Long} :
    estadoTras act user = .received ↔ act.authorId ≠ user ∧ act.action = .add := by
  rw [estadoTras_eq]
  split <;> simp_all

/-- The two users of an act see mirrored statuses. -/
theorem estadoTras_mirrored {act : Act} {user other : Long} (hbetween : act.Between user other)
    (hdistinct : act.authorId ≠ act.contactId) :
    estadoTras act other = (estadoTras act user).mirrored := by
  have hpair : act.authorId = user ∧ act.contactId = other ∨
      act.authorId = other ∧ act.contactId = user := contactNetwork.between_iff.mp hbetween
  rw [estadoTras_eq, estadoTras_eq]
  rcases hpair with ⟨rfl, rfl⟩ | ⟨rfl, rfl⟩
  · split <;> simp [hdistinct, Status.mirrored]
  · split <;> simp [hdistinct, Status.mirrored]

/-- The two users see mirrored statuses. -/
theorem statusAfter_mirrored {made : List Act}
    (hdistinct : ∀ act ∈ made, act.authorId ≠ act.contactId)
    (user other : Long) : statusAfter made other user
      = (statusAfter made user other).mirrored := by
  have hkind : contactNetwork.between other user = contactNetwork.between user other :=
    funext (contactNetwork.between_comm other user)
  rw [statusAfter, statusAfter, hkind]
  cases hlast : lastThat (contactNetwork.between user other) made with
  | none => rfl
  | some act =>
      obtain ⟨hbetween, before, after, rfl, -⟩ := lastThat_eq_some.mp hlast
      exact estadoTras_mirrored hbetween (hdistinct act (by simp))

/-- The status is the link of the network as the app sees it. -/
theorem ofLink_after {made : List Act} (hdistinct : ∀ act ∈ made, act.authorId ≠ act.contactId)
    (user other : Long) :
    Status.ofLink (contactNetwork.after made user other) = statusAfter made user other := by
  rw [contactNetwork.after_eq hdistinct, statusAfter]
  cases lastThat (contactNetwork.between user other) made <;> rfl

/-- Acts between others leave a status. -/
theorem statusAfter_append {made since : List Act} {user other : Long}
    (hsince : ∀ act ∈ since, ¬ act.Between user other) :
    statusAfter (made ++ since) user other = statusAfter made user other := by
  rw [statusAfter, lastThat_append_of_none hsince, statusAfter]

/-- The app knows every status that the server writes. -/
theorem exists_ofText {made : List Act} (hdistinct : ∀ act ∈ made, act.authorId ≠ act.contactId)
    {user other : Long} {text : Text} (hlink : contactNetwork.after made user other = some text) :
    ∃ status, Status.ofText text = some status := by
  rw [contactNetwork.after_eq hdistinct, Option.bind_eq_some_iff] at hlink
  obtain ⟨act, -, hseen⟩ := hlink
  obtain ⟨authorId, contactId, action⟩ := act
  have hseen : (if authorId = user then action.authorStatus else action.contactStatus)
      = some text := hseen
  split at hseen
  · cases action <;> cases hseen <;> exact ⟨_, rfl⟩
  · cases action <;> cases hseen <;> exact ⟨_, rfl⟩

/-- The list on the server shows the status after the acts. -/
theorem statusIn_eq {answered : List (Call × Outcome)} (h : Tracks answered db)
    (user other : Long) : statusIn db user other = statusAfter (acts answered) user other := by
  obtain ⟨contacts, hread, hstatuses⟩ := h.represents user
  have hfind : (contacts.find? (·.userId = other)).map (·.status)
      = contactNetwork.after (acts answered) user other := by
    cases hfound : contacts.find? (·.userId = other) with
    | none =>
        rw [List.find?_eq_none] at hfound
        cases hlink : contactNetwork.after (acts answered) user other with
        | none => rfl
        | some status =>
            have hmem := (hstatuses { userId := other, status }).mpr hlink
            exact absurd (decide_eq_true rfl) (hfound _ hmem)
    | some contact =>
        have hid : contact.userId = other := by simpa using List.find?_some hfound
        rw [← hid, (hstatuses contact).mp (List.mem_of_find?_eq_some hfound)]
        rfl
  rw [statusIn, hread, ← ofLink_after h.distinct, ← hfind]

variable {inApp : Long → Prop}

/-- An answer gives the status at its moment. -/
theorem estado_of_answer {moment : List (Call × Outcome)} {consulta : Consulta}
    {response : List ContactsResponse.Contact}
    (hat : (clients inApp).At ∅ moment consulta response) :
    consulta.estado response = statusAfter (acts moment) consulta.userId consulta.otherId := by
  obtain ⟨server, hrun, hanswer⟩ := hat
  have htracks := tracks_of_run hrun
  have hconsistent : Consistent server := (reachable_of_answers hrun).consistent
  obtain ⟨contacts, hread, hstatuses⟩ := htracks.represents consulta.userId
  obtain ⟨body, hbody, hparsed⟩ := Option.bind_eq_some_iff.mp hanswer
  have hshown : ContactsHandler.contactsBody server contacts = .ok body := by
    have hresponse : ContactsHandler.responseBody server consulta.userId = .ok body := by
      cases hresult : ContactsHandler.responseBody server consulta.userId with
      | error e =>
          rw [hresult] at hbody
          cases hbody
      | ok result =>
          rw [hresult] at hbody
          cases hbody
          rfl
    obtain ⟨listed, hlisted, hshown⟩ := bind_eq_ok.mp hresponse
    rw [PersonManager.getContactsByUserId] at hlisted
    split at hlisted
    · cases hlisted
    · rw [hread] at hlisted
      cases hlisted
      exact hshown
  have hmem := @mem_parseJSON server contacts body hconsistent hshown response hparsed
  rw [← ofLink_after htracks.distinct, Consulta.estado, getStatusForId]
  cases hfound : response.find? (·.id = consulta.otherId) with
  | none =>
      rw [List.find?_eq_none] at hfound
      cases hlink : contactNetwork.after (acts moment) consulta.userId consulta.otherId with
      | none => rfl
      | some text =>
          obtain ⟨status, hstatus⟩ := exists_ofText htracks.distinct hlink
          have hcontact := (hstatuses { userId := consulta.otherId, status := text }).mpr hlink
          have hlisted := hfound { id := consulta.otherId, status }
            (hmem.mpr ⟨_, hcontact, rfl, hstatus⟩)
          exact absurd (decide_eq_true rfl) hlisted
  | some shown =>
      obtain ⟨contact, hcontact, hid, hstatus⟩ := hmem.mp (List.mem_of_find?_eq_some hfound)
      have hother : shown.id = consulta.otherId := by simpa using List.find?_some hfound
      rw [← hother, ← hid, (hstatuses contact).mp hcontact]
      show shown.status = (Status.ofText contact.status).getD .none
      rw [hstatus]
      rfl

/-! ## The handlers -/

/-- The answer to the app is what the handler answers. -/
theorem serve_handleGetRequest {server : Server} {userId : Long} {body : Json} {url : Text}
    (hbody : ContactsHandler.responseBody server.db userId = .ok body)
    (hurl : Handler.getUserIdFromUrl url = .ok userId) (session : Option SessionManager.Session)
    (httpMessage : HttpMessage) :
    (ContactsHandler.handleGetRequest session httpMessage url).serve server
      = (.ok ((({} : Response).setSuccessfulHeader).setBody body.toStyledString), server) := by
  obtain ⟨contacts, hcontacts, hshown⟩ := bind_eq_ok.mp hbody
  refine Action.serve_handling_ok ?_ _
  rw [Action.serve_bind_ok (by rw [Action.serve_ofExcept, hurl]),
    Action.serve_bind_ok (by rw [Action.serve_query, hcontacts]),
    Action.serve_bind_ok (by rw [Action.serve_query, hshown]), Action.serve_pure]

/-- A member is there when it was assigned. -/
theorem isMember_ofMembers (members : List (String × Json)) (name : String) :
    (Json.ofMembers members).isMember name = .ok (Json.assigned name members).isSome := by
  rw [← field_ofMembers, Json.ofMembers]
  split <;> rfl

/-- A notification changes nothing on the server. -/
theorem serve_sendNotification (env : Environment) (parsedBody : Json) (server : Server) :
    ((ContactsHandler.sendNotification env parsedBody).serve server).2 = server := by
  rw [ContactsHandler.sendNotification, Action.serve_handling, Action.serve_query]
  split <;> rename_i heq <;> exact (congrArg Prod.snd heq).symm

/-- The members that are checked are there. -/
theorem checkMember_toJson (solicitud : Solicitud) {name : String} (hthere : (Json.assigned name [
      ("author_id", .ofLong solicitud.authorId),
      ("contact_id", .ofLong solicitud.contactId),
      ("action", .string solicitud.action.text)]).isSome) (details : String) :
    Handler.checkMember solicitud.toJson name details = .ok () := by
  rw [Handler.checkMember, Solicitud.toJson, isMember_ofMembers, hthere]
  rfl

/-- The text of the action is read from the request. -/
theorem action_toJson (solicitud : Solicitud) :
    solicitud.toJson.member "action" = .ok (.string solicitud.action.text) := by
  simp [Solicitud.toJson, Json.assigned]

/-- The id of the author is read from the request. -/
theorem authorId_toJson (solicitud : Solicitud) :
    solicitud.toJson.member "author_id" >>= Json.asLargestInt = .ok solicitud.authorId := by
  simp [Solicitud.toJson, Json.assigned]

/-- Whatever is answered after a notification, it leaves the server as it is. -/
theorem serve_notified (env : Environment) (parsedBody : Json) (server : Server)
    (rest : Unit → Action Response) (hrest : ∀ next, ((rest ()).serve next).2 = next) :
    ((ContactsHandler.sendNotification env parsedBody >>= rest).serve server).2 = server := by
  have hsent := serve_sendNotification env parsedBody server
  rw [Action.serve_bind]
  split
  · rename_i heq
    rwa [heq] at hsent
  · rename_i heq
    rw [heq] at hsent
    rw [hrest]
    exact hsent

/-- The request of the app, in the session of its author, is served by the call and nothing else.
-/
theorem serve_handlePutRequest {env : Environment} {session : SessionManager.Session}
    {httpMessage : HttpMessage} {solicitud : Solicitud}
    (hbody : Handler.parseBody env (Handler.requestBody httpMessage) = .ok solicitud.toJson)
    (hsession : session.userId = solicitud.authorId) (url : Text) (server : Server) :
    ((ContactsHandler.handlePutRequest env (some session) httpMessage url).serve server).2
      = { server with db := (exec server.db (.saveOrUpdateRelation solicitud.toJson)).2 } := by
  have hown : Handler.require
      (Security.hasPermissionToContactUser session.userId solicitud.authorId) = .ok () := by
    rw [hsession]
    simp [Handler.require, Security.hasPermissionToContactUser, Security.samePerson]
  rw [ContactsHandler.handlePutRequest, Action.serve_handling_snd,
    Action.serve_bind_ok (by rw [Action.serve_ofExcept, hbody]),
    Action.serve_bind_ok (by rw [Action.serve_ofExcept, checkMember_toJson _ rfl]),
    Action.serve_bind_ok (by rw [Action.serve_ofExcept, checkMember_toJson _ rfl]),
    Action.serve_bind_ok (by rw [Action.serve_ofExcept, checkMember_toJson _ rfl]),
    Action.serve_bind_ok (by rw [Action.serve_ofExcept, authorId_toJson]),
    Action.serve_bind_ok (by rw [Action.serve_ofExcept]; rfl),
    Action.serve_bind_ok (by rw [Action.serve_ofExcept, hown])]
  have hcall : (exec server.db (.saveOrUpdateRelation solicitud.toJson)).2
      = (saveOrUpdateRelation server.db solicitud.toJson).2 := rfl
  have hstore : (Action.onStore fun db => saveOrUpdateRelation db solicitud.toJson).serve server
      = ((saveOrUpdateRelation server.db solicitud.toJson).1,
        { server with db := (saveOrUpdateRelation server.db solicitud.toJson).2 }) :=
    Action.serve_onStore server _
  rw [hcall]
  cases hresult : (saveOrUpdateRelation server.db solicitud.toJson).1 with
  | error e =>
      rw [hresult] at hstore
      rw [Action.serve_bind_error hstore]
  | ok _ =>
      rw [hresult] at hstore
      rw [Action.serve_bind_ok hstore,
        Action.serve_bind_ok (by rw [Action.serve_ofExcept, action_toJson])]
      split
      · exact serve_notified env _ _ _ fun next => rfl
      · rfl

end PerfilActivity

end TallerII
