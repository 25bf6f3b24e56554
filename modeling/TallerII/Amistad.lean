import TallerII.Perfil

/-!
# Contacts by way of the app

Nothing ties a request of the app to the answer that it was offered with: it may be served when
the relation between the two users is already another one. `consent_of_active` says what consent
is left of that, and `protocol_of_run` that the app and the server together keep the protocol of
contacts when nothing comes in between. `boton_of_run` says what the button shows.
-/

namespace TallerII.PerfilActivity

open Lib ContactsResponse PersonManager RelationsManager

variable {db : DB} {inApp : Long → Prop}

/-! ## What the app may send -/

variable {fresh : List (Call × Outcome) → Call × Outcome → Prop} {system : System}

/-- An act among those of a run is what one call made. -/
theorem acts_eq_append_cons {answered : List (Call × Outcome)} {before after : List Act}
    {act : Act}
    (h : acts answered = before ++ act :: after) :
    ∃ earlier made later, answered = earlier ++ made :: later ∧ acts earlier = before ∧
      acted made = some act ∧ acts later = after := by
  obtain ⟨earlier, rest, rfl, hearlier, hrest⟩ := List.filterMap_eq_append_iff.mp h
  obtain ⟨skipped, made, later, rfl, hskipped, hmade, hlater⟩ :=
    List.filterMap_eq_cons_iff.mp hrest
  refine ⟨earlier ++ skipped, made, later, by simp, ?_, hmade, hlater⟩
  rw [acts, List.filterMap_append, hearlier, List.filterMap_eq_nil_iff.mpr hskipped,
    List.append_nil]

/-- The act of a served request is the one that the app asked for. -/
theorem acted_eq_some_of_serves {request : Perfil × Solicitud.Action} {answered : Call × Outcome}
    {act : Act} (hserves : (clients inApp).serves request answered)
    (hacted : acted answered = some act) : act = (request.1.solicitud request.2).act := by
  obtain ⟨call, outcome⟩ := answered
  obtain rfl : call = _ := hserves
  cases outcome with
  | error e => cases hacted
  | ok result =>
      have hact : actOf (request.1.solicitud request.2).toJson = some act := hacted
      rw [Solicitud.actOf_toJson] at hact
      exact (Option.some.inj hact).symm

/-- A request that is served with success is an act. -/
theorem acted_of_serves {request : Perfil × Solicitud.Action} {answered : Call × Outcome}
    (hserves : (clients inApp).serves request answered)
    (hsucceeds : (clients inApp).succeeds answered) :
    acted answered = some (request.1.solicitud request.2).act := by
  obtain ⟨call, outcome⟩ := answered
  obtain rfl : call = _ := hserves
  cases outcome with
  | error e => cases hsucceeds
  | ok result => exact Solicitud.actOf_toJson _

/-- An act was offered with an answer that the server gave at a moment of the run and that was
shown. -/
def OfferedAt (inApp : Long → Prop) (system : System) (moment : List (Call × Outcome))
    (act : Act) :
    Prop :=
  ∃ consulta response request, (consulta, response, moment) ∈ system.displayed ∧
    moment <+: system.served ∧ (clients inApp).At ∅ moment consulta response ∧
    request ∈ (clients inApp).offers consulta response ∧ act = (request.1.solicitud request.2).act

/-- What is offered is offered for the status that the user had at the moment of the answer. -/
theorem OfferedAt.exists_action {moment : List (Call × Outcome)} {act : Act}
    (h : OfferedAt inApp system moment act) :
    ∃ action ∈ acciones (statusAfter (acts moment) act.authorId act.contactId),
      action.served = act.action := by
  obtain ⟨⟨perfil, listener⟩, response, request, -, -, hat, hoffered, rfl⟩ := h
  have hestado := estado_of_answer hat
  cases listener with
  | fillProfile => cases hoffered
  | modificarAmistad =>
      obtain ⟨action, haction, rfl⟩ := List.mem_map.mp hoffered
      rw [hestado] at haction
      exact ⟨action, haction, rfl⟩

/-- Every act of a user of the app was offered at some moment. -/
theorem offered_of_sound (h : (clients inApp).Sound fresh ∅ system) {before after : List Act}
    {act : Act} (hacts : acts system.served = before ++ act :: after)
    (hown : inApp act.authorId) :
    ∃ moment since made, before = acts moment ++ acts since ∧ acted made = some act ∧
      fresh since made ∧ OfferedAt inApp system moment act := by
  obtain ⟨earlier, made, later, hserved, rfl, hmade, -⟩ := acts_eq_append_cons hacts
  obtain ⟨moment, since, consulta, response, request, rfl, hfresh, hdisplayed, hoffered,
      hserves⟩ :=
    h.offered earlier made later hserved ⟨act, hmade, hown⟩
  obtain ⟨hearlier, hat⟩ := h.displayed _ hdisplayed
  exact ⟨moment, since, made, List.filterMap_append, hmade, hfresh, consulta, response, request,
    hdisplayed, hearlier, hat, hoffered, acted_eq_some_of_serves hserves hmade⟩

/-- The author of an act between two users of the app is one of the app. -/
theorem author_of_between {act : Act} {user other : Long} (hbetween : act.Between user other)
    (huser : inApp user) (hother : inApp other) : inApp act.authorId := by
  have hpair : act.authorId = user ∧ act.contactId = other ∨
      act.authorId = other ∧ act.contactId = user := contactNetwork.between_iff.mp hbetween
  rcases hpair with ⟨rfl, -⟩ | ⟨rfl, -⟩
  · exact huser
  · exact hother

/-- An accept is offered for a request that was received, and for nothing else. -/
theorem accept_mem_acciones {estado : Status} {action : Solicitud.Action}
    (haction : action ∈ acciones estado) (haccept : action.served = .accept) :
    estado = .received := by
  cases estado with
  | received => rfl
  | none | requested | active =>
      obtain rfl := List.mem_singleton.mp haction
      cases haccept

/-! ## What the app can do -/

/-- Calls that are none of the app can come at any time. -/
theorem exists_run_of_calls (calls : List Call)
    (hother : ∀ call ∈ calls, ∀ outcome, ¬ (clients inApp).own (call, outcome)) :
    ∃ events system, Run (Guarded (clients inApp).Step (Clients.Fresh Undisturbed)) System.initial
      events system ∧ system.server = execAll calls := by
  induction calls using List.reverseRecOn with
  | nil => exact ⟨[], _, .nil, rfl⟩
  | append_singleton calls call ih =>
      obtain ⟨events, system, hrun, hserver⟩ :=
        ih fun call hcall => hother call (List.mem_append_left _ hcall)
      have hstep : (clients inApp).steps system.server (call, (exec system.server call).1)
          (exec system.server call).2 := rfl
      obtain ⟨later, next, hlater, hnext⟩ :=
        Clients.exists_run_of_other hrun (hother call (by simp) _) hstep
      exact ⟨later, next, hlater, by rw [hnext, execAll_concat, hserver]⟩

/-- Whatever is offered can be carried out before anything else happens. -/
theorem exists_run_of_offered {events : List Evento}
    (h : Run (Guarded (clients inApp).Step (Clients.Fresh Undisturbed)) System.initial events
      system)
    {perfil : Perfil} (hother : perfil.fetchedUserID ≠ perfil.connectedUserID)
    {response : List ContactsResponse.Contact} {action : Solicitud.Action}
    (hanswer : (clients inApp).answer system.server ⟨perfil, .modificarAmistad⟩ = some response)
    (haction : action ∈ acciones (getStatusForId response perfil.fetchedUserID)) :
    ∃ later next, Run (Guarded (clients inApp).Step (Clients.Fresh Undisturbed)) System.initial
      later next ∧ next.server
        = (exec system.server (.saveOrUpdateRelation (perfil.solicitud action).toJson)).2 := by
  let call := Call.saveOrUpdateRelation (perfil.solicitud action).toJson
  have hserves : (clients inApp).serves (perfil, action)
      (call, (exec system.server call).1) := rfl
  have hfresh : Undisturbed [] (call, (exec system.server call).1) := by
    intro act _ later hlater
    cases hlater
  exact Clients.exists_run_of_offers h (fun _ => hother) hanswer (List.mem_map_of_mem haction)
    hserves rfl hfresh

/-- An action in a dialog can be sent at any later time. -/
theorem exists_run_of_dialog {events : List Evento}
    (h : Run (clients inApp).Step System.initial events system) {perfil : Perfil}
    {response : List ContactsResponse.Contact} {moment : List (Call × Outcome)}
    {action : Solicitud.Action}
    (hdialog : (⟨perfil, .modificarAmistad⟩, response, moment) ∈ system.displayed)
    (haction : action ∈ acciones (getStatusForId response perfil.fetchedUserID)) {act : Act}
    (hact : (perfil.solicitud action).act = act)
    (hserved : (exec system.server (.saveOrUpdateRelation act.request)).1.isOk) :
    ∃ later next, Run (clients inApp).Step System.initial later next ∧
      next.server = (exec system.server (.saveOrUpdateRelation act.request)).2 ∧
      acts next.served = acts system.served ++ [act] ∧ next.displayed = system.displayed := by
  have hrequest : (perfil.solicitud action).toJson = act.request := by
    subst hact
    cases action <;> rfl
  let made : Call × Outcome := (.saveOrUpdateRelation act.request,
    (exec system.server (.saveOrUpdateRelation act.request)).1)
  have hserves : (clients inApp).serves (perfil, action) made := by
    show Call.saveOrUpdateRelation act.request = .saveOrUpdateRelation _
    rw [← hrequest]
  have hstep : (clients inApp).steps system.server made
      (exec system.server (.saveOrUpdateRelation act.request)).2 := rfl
  obtain ⟨later, next, hrun, hserver, hnext, hkept⟩ := Clients.exists_run_of_displayed h hdialog
    (List.mem_map_of_mem haction) hserves hstep
  refine ⟨later, next, hrun, hserver, ?_, hkept⟩
  rw [hnext, acts_append_singleton, acted_of_serves hserves hserved, ← hact]
  rfl

/-- Two users of the app register, and one adds the other. -/
theorem exists_added :
    ∃ events system, Run (Guarded (clients fun _ => True).Step (Clients.Fresh Undisturbed))
      System.initial events system ∧ system.server = execAll (twoUsersAnd [⟨1, 2, .add⟩]) := by
  obtain ⟨_, registered, hrun, hserver⟩ := @exists_run_of_calls (fun _ => True) (twoUsersAnd [])
    (by simp [twoUsersAnd, clients, acted])
  have hadd : (clients fun _ => True).answer registered.server ⟨⟨0, 1, 2⟩, .modificarAmistad⟩
      = some [] := by
    rw [hserver]
    decide +kernel
  obtain ⟨_, last, hrun, hlast⟩ := exists_run_of_offered hrun (by decide) hadd
    (List.mem_singleton.mpr rfl)
  refine ⟨_, last, hrun, ?_⟩
  rw [hlast, hserver, ← execAll_concat]
  rfl

/-- The other user accepts. -/
theorem exists_accepted :
    ∃ events system, Run (Guarded (clients fun _ => True).Step (Clients.Fresh Undisturbed))
      System.initial events system ∧ Holds system.server 1 2 active := by
  obtain ⟨_, added, hrun, hadded⟩ := exists_added
  have haccept : (clients fun _ => True).answer added.server ⟨⟨1, 2, 1⟩, .modificarAmistad⟩
      = some [{ id := 1, status := .received }] := by
    rw [hadded]
    decide +kernel
  obtain ⟨_, last, hrun, hlast⟩ := exists_run_of_offered hrun (by decide) haccept
    List.mem_cons_self
  have hserver : last.server = execAll (twoUsersAnd [⟨1, 2, .add⟩, ⟨2, 1, .accept⟩]) := by
    rw [hlast, hadded, ← execAll_concat]
    rfl
  refine ⟨_, last, hrun, ?_⟩
  rw [hserver]
  exact ⟨[{ userId := 2, status := active }], by decide +kernel, List.mem_cons_self⟩

/-! ## Consent -/

/-- Whoever sees a request as received was added last by its author. -/
theorem request_of_received {made : List Act} {user other : Long}
    (h : statusAfter made user other = .received) :
    ∃ (earlier : List Act) (request : Act) (seen : List Act), made = earlier ++ request :: seen ∧
      request.action = .add ∧ request.contactId = user ∧ request.authorId = other ∧
      ∀ act ∈ seen, ¬ act.Between user other := by
  rw [statusAfter] at h
  cases hlast : lastThat (contactNetwork.between user other) made with
  | none =>
      rw [hlast] at h
      cases h
  | some request =>
      rw [hlast] at h
      obtain ⟨hothers, hadd⟩ := estadoTras_eq_received.mp h
      obtain ⟨hbetween, earlier, seen, hmade, hunseen⟩ := lastThat_eq_some.mp hlast
      have husers : request.authorId = user ∧ request.contactId = other ∨
          request.authorId = other ∧ request.contactId = user :=
        contactNetwork.between_iff.mp hbetween
      rcases husers with ⟨hsame, -⟩ | ⟨hauthor, hcontact⟩
      · exact absurd hsame hothers
      · exact ⟨earlier, request, seen, hmade, hadd, hcontact, hauthor, hunseen⟩

/-- Whoever is an active contact was asked: the last act between two users of the app is an
accept, and before it the other user had added the one who accepts. When the server gave the
answer that the accept was offered with, that was still the last act between the two. -/
theorem consent_of_active {events : List Evento}
    (h : Run (clients inApp).Step System.initial events system) {user other : Long}
    (huser : inApp user) (hother : inApp other)
    (hactive : Holds system.server user other active) :
    ∃ (before : List Act) (request : Act) (seen later : List Act) (answer : Act)
    (after : List Act)
      (moment : List (Call × Outcome)),
      acts system.served = before ++ request :: (seen ++ later ++ answer :: after) ∧
      request.Between user other ∧ request.action = .add ∧
      answer.authorId = request.contactId ∧ answer.contactId = request.authorId ∧
      answer.action = .accept ∧ (∀ act ∈ seen, ¬ act.Between user other) ∧
      (∀ act ∈ after, ¬ act.Between user other) ∧
      OfferedAt inApp system moment answer ∧ acts moment = before ++ request :: seen := by
  have hsound := Clients.sound_of_run (Clients.guarded_of_run h)
  have htracks := tracks_of_run hsound.run
  obtain ⟨answer, hlast, hseen⟩ := htracks.holds_iff.mp hactive
  obtain ⟨hbetween, before, after, hacts, hafter⟩ := lastThat_eq_some.mp hlast
  have haccept := seenBy_eq_active.mp hseen
  obtain ⟨moment, since, made, rfl, -, -, hoffered⟩ :=
    offered_of_sound hsound hacts (author_of_between hbetween huser hother)
  obtain ⟨action, haction, hserved⟩ := hoffered.exists_action
  have hreceived := accept_mem_acciones haction (hserved.trans haccept)
  obtain ⟨earlier, request, seen, hmoment, hadd, hcontact, hauthor, hunseen⟩ :=
    request_of_received hreceived
  simp only [Act.Between, between_users hbetween] at hunseen
  have hrequested : request.Between user other := by
    rw [Act.Between, ← between_users hbetween]
    exact contactNetwork.between_iff.mpr (.inr ⟨hauthor, hcontact⟩)
  refine ⟨earlier, request, seen, acts since, answer, after, moment, ?_, hrequested, hadd,
    hcontact.symm, hauthor.symm, haccept, hunseen, hafter, hoffered, hmoment⟩
  rw [hacts, hmoment]
  simp only [List.append_assoc, List.cons_append]

/-- A user adds another one, who accepts. -/
theorem consent_of_active_accepted :
    ∃ (system : System) (before : List Act) (request : Act) (seen later : List Act) (answer : Act)
      (after : List Act) (moment : List (Call × Outcome)),
      acts system.served = before ++ request :: (seen ++ later ++ answer :: after) ∧
      request.Between 1 2 ∧ request.action = .add ∧
      answer.authorId = request.contactId ∧ answer.contactId = request.authorId ∧
      answer.action = .accept ∧ (∀ act ∈ seen, ¬ act.Between 1 2) ∧
      (∀ act ∈ after, ¬ act.Between 1 2) ∧
      OfferedAt (fun _ => True) system moment answer ∧
        acts moment = before ++ request :: seen := by
  obtain ⟨events, system, hrun, hactive⟩ := exists_accepted
  exact ⟨system, consent_of_active hrun.of_guarded trivial trivial hactive⟩

/-! ## The protocol -/

/-- What two users are to each other. -/
inductive Relation where
  | strangers
  | asked (authorId : Long)
  | contacts
deriving Repr, DecidableEq

namespace Relation

/-- The link that a user should see. -/
def link (relation : Relation) (user : Long) : Option Text :=
  match relation with
  | strangers => none
  | asked authorId => some (if authorId = user then requested else received)
  | contacts => some active

/-- The protocol: strangers ask, whoever was asked accepts, and either takes back what there is.
-/
inductive Step : Relation → Act → Relation → Prop where
  | add (authorId contactId : Long) :
      Step strangers { authorId, contactId, action := .add } (asked authorId)
  | accept (authorId contactId : Long) :
      Step (asked authorId) { authorId := contactId, contactId := authorId, action := .accept }
        contacts
  | withdraw (askedBy authorId contactId : Long) :
      Step (asked askedBy) { authorId, contactId, action := .remove } strangers
  | unfriend (authorId contactId : Long) :
      Step contacts { authorId, contactId, action := .remove } strangers

/-- Both users see what a step made of them. -/
theorem Step.link {relation next : Relation} {act : Act} (h : Step relation act next)
    (user : Long) : contactNetwork.seenBy user act = next.link user := by
  cases h with
  | add authorId contactId =>
      show (if authorId = user then some requested else some received)
        = some (if authorId = user then requested else received)
      split <;> rfl
  | accept authorId contactId =>
      show (if contactId = user then some active else some active) = some active
      split <;> rfl
  | withdraw askedBy authorId contactId =>
      show (if authorId = user then none else none) = none
      split <;> rfl
  | unfriend authorId contactId =>
      show (if authorId = user then none else none) = none
      split <;> rfl

/-- Whoever is asked by somebody was added by the last act. -/
theorem Step.author {relation : Relation} {act : Act} {authorId : Long}
    (h : Step relation act (.asked authorId)) : authorId = act.authorId := by
  cases h
  rfl

/-- What is offered for the status of the author is a step of the protocol. -/
theorem exists_step {relation : Relation} {act : Act} {action : Solicitud.Action}
    (hdistinct : act.authorId ≠ act.contactId)
    (hasked : ∀ authorId, relation = .asked authorId →
      authorId = act.authorId ∨ authorId = act.contactId)
    (haction : action ∈ acciones (Status.ofLink (relation.link act.authorId)))
    (hserved : action.served = act.action) : ∃ next, Step relation act next := by
  obtain ⟨authorId, contactId, served⟩ := act
  obtain rfl : action.served = served := hserved
  cases relation with
  | strangers =>
      obtain rfl := List.mem_singleton.mp haction
      exact ⟨_, .add authorId contactId⟩
  | contacts =>
      obtain rfl := List.mem_singleton.mp haction
      exact ⟨_, .unfriend authorId contactId⟩
  | asked askedBy =>
      rcases hasked askedBy rfl with rfl | rfl
      · rw [link, if_pos rfl] at haction
        obtain rfl := List.mem_singleton.mp haction
        exact ⟨_, .withdraw askedBy askedBy contactId⟩
      · rw [link, if_neg fun hsame => hdistinct hsame.symm] at haction
        rcases List.mem_pair.mp haction with rfl | rfl
        · exact ⟨_, .accept askedBy authorId⟩
        · exact ⟨_, .withdraw askedBy authorId askedBy⟩

/-- Nobody accepts a stranger. -/
theorem not_run_withdrawn {made : List Act} {withdraw accept : Act} {relation : Relation}
    (hwithdraw : withdraw.action = .remove) (haccept : accept.action = .accept) :
    ¬ Run Relation.Step .strangers (made ++ [withdraw] ++ [accept]) relation := by
  intro h
  obtain ⟨middle, hbefore, hlast⟩ := h.of_concat
  obtain ⟨earlier, -, hfirst⟩ := hbefore.of_concat
  have hmiddle : middle = .strangers := by
    cases hfirst with
    | add | accept => cases hwithdraw
    | withdraw | unfriend => rfl
  subst hmiddle
  cases hlast with
  | add => cases haccept

end Relation

/-- The author of every act between the two saw a status that offers it. -/
def Offering (made : List Act) (user other : Long) : Prop :=
  ∀ before act after, made = before ++ act :: after → act.Between user other →
    ∃ action ∈ acciones (statusAfter before act.authorId act.contactId), action.served
      = act.action

/-- The relation as both users see it. -/
structure Shows (made : List Act) (user other : Long) (relation : Relation) : Prop where
  run : Run Relation.Step .strangers (made.filter (contactNetwork.between user other)) relation
  links : ∀ act : Act, act.Between user other →
    contactNetwork.after made act.authorId act.contactId = relation.link act.authorId
  author : ∀ authorId, relation = .asked authorId → authorId = user ∨ authorId = other

/-- What was offered before the last act was offered. -/
theorem Offering.of_append {made : List Act} {act : Act} {user other : Long}
    (h : Offering (made ++ [act]) user other) : Offering made user other := by
  intro before earlier after hmade hbetween
  refine h before earlier (after ++ [act]) ?_ hbetween
  rw [hmade, List.append_assoc, List.cons_append]

/-- Two acts between the same two users are each between the users of the other. -/
theorem between_comm_of_between {first second : Act} {user other : Long}
    (hfirst : first.Between user other) (hsecond : second.Between user other) :
    second.Between first.authorId first.contactId := by
  rw [Act.Between, between_users hfirst]
  exact hsecond

/-- Acts that were offered for the status of their author are a run of the protocol. -/
theorem shows_of_offering {made : List Act}
    (hdistinct : ∀ act ∈ made, act.authorId ≠ act.contactId)
    {user other : Long} (hoffering : Offering made user other) :
    ∃ relation, Shows made user other relation := by
  induction made using List.reverseRecOn with
  | nil => exact ⟨.strangers, .nil, by simp [Relation.link], by simp⟩
  | append_singleton made act ih =>
      have hlast : act.authorId ≠ act.contactId := hdistinct act (by simp)
      have hbefore : ∀ act ∈ made, act.authorId ≠ act.contactId := fun act hact =>
        hdistinct act (List.mem_append_left _ hact)
      obtain ⟨relation, hshows⟩ := ih hbefore hoffering.of_append
      by_cases hbetween : act.Between user other
      · obtain ⟨action, haction, hserved⟩ := hoffering made act [] rfl hbetween
        rw [← ofLink_after hbefore, hshows.links act hbetween] at haction
        have hpair : act.authorId = user ∧ act.contactId = other ∨
            act.authorId = other ∧ act.contactId = user := contactNetwork.between_iff.mp hbetween
        have hasked : ∀ authorId, relation = .asked authorId →
            authorId = act.authorId ∨ authorId = act.contactId := by
          intro authorId hrelation
          have hauthor := hshows.author authorId hrelation
          rcases hpair with ⟨rfl, rfl⟩ | ⟨rfl, rfl⟩
          · exact hauthor
          · exact hauthor.symm
        obtain ⟨next, hstep⟩ := Relation.exists_step hlast hasked haction hserved
        refine ⟨next, ?_, ?_, ?_⟩
        · rw [List.filter_append, List.filter_cons_of_pos hbetween, List.filter_nil]
          exact hshows.run.snoc hstep
        · intro later hlater
          rw [Linking.after_append_singleton, Linking.apply_eq _ _ hlast,
            if_pos (between_comm_of_between hlater hbetween)]
          exact hstep.link later.authorId
        · rintro authorId rfl
          rw [hstep.author]
          rcases hpair with ⟨hauthor, -⟩ | ⟨hauthor, -⟩
          · exact .inl hauthor
          · exact .inr hauthor
      · refine ⟨relation, ?_, ?_, hshows.author⟩
        · rw [List.filter_append, List.filter_cons_of_neg hbetween, List.filter_nil,
            List.append_nil]
          exact hshows.run
        · intro later hlater
          have hother : ¬ act.Between later.authorId later.contactId := by
            rw [Act.Between, between_users hlater]
            exact hbetween
          rw [Linking.after_append_singleton, Linking.apply_eq _ _ hlast, if_neg hother]
          exact hshows.links later hlater

/-- When nothing comes between two users from an answer to the request that was offered with it,
all that the app does between users of the app is a run of the protocol, and their lists show
where it ended. -/
theorem protocol_of_run {events : List Evento}
    (h : Run (Guarded (clients inApp).Step (Clients.Fresh Undisturbed)) System.initial events
      system)
    {user other : Long} (huser : inApp user) (hother : inApp other) :
    ∃ relation : Relation,
      Run Relation.Step .strangers
        ((acts system.served).filter (contactNetwork.between user other)) relation ∧
      (∀ status, Holds system.server user other status ↔ relation.link user = some status) ∧
      ∀ status, Holds system.server other user status ↔ relation.link other = some status := by
  have hsound := Clients.sound_of_run h
  have htracks := tracks_of_run hsound.run
  have hoffering : Offering (acts system.served) user other := by
    intro before act after hacts hbetween
    obtain ⟨moment, since, made, rfl, hmade, hfresh, hoffered⟩ :=
      offered_of_sound hsound hacts (author_of_between hbetween huser hother)
    rw [statusAfter_append (hfresh act hmade)]
    exact hoffered.exists_action
  obtain ⟨relation, hshows⟩ := shows_of_offering htracks.distinct hoffering
  refine ⟨relation, hshows.run, fun status => ?_, fun status => ?_⟩
  · rw [htracks.holds_iff_link]
    have hlink := hshows.links { authorId := user, contactId := other, action := .add }
      (contactNetwork.between_iff.mpr (.inl ⟨rfl, rfl⟩))
    rw [hlink]
  · rw [htracks.holds_iff_link]
    have hlink := hshows.links { authorId := other, contactId := user, action := .add }
      (contactNetwork.between_iff.mpr (.inr ⟨rfl, rfl⟩))
    rw [hlink]

/-- A user adds another one, who accepts, and both lists show an active contact. -/
theorem protocol_of_run_accepted :
    ∃ system : System, Holds system.server 1 2 active ∧ ∃ relation : Relation,
      Run Relation.Step .strangers
        ((acts system.served).filter (contactNetwork.between 1 2)) relation ∧
      (∀ status, Holds system.server 1 2 status ↔ relation.link 1 = some status) ∧
      ∀ status, Holds system.server 2 1 status ↔ relation.link 2 = some status := by
  obtain ⟨events, system, hrun, hactive⟩ := exists_accepted
  exact ⟨system, hactive, protocol_of_run hrun trivial trivial⟩

/-- Without that the protocol can be left: a request that was taken back is accepted all the same,
in a dialog that was there before. -/
theorem exists_withdrawn :
    ∃ (events : List Evento) (system : System),
      Run (clients fun _ => True).Step System.initial events system ∧
      Holds system.server 1 2 active ∧ ∀ relation, ¬ Run Relation.Step .strangers
        ((acts system.served).filter (contactNetwork.between 1 2)) relation := by
  obtain ⟨_, added, hrun, hadded⟩ := exists_added
  have haccepting : (clients fun _ => True).answer added.server ⟨⟨1, 2, 1⟩, .modificarAmistad⟩
      = some [{ id := 1, status := .received }] := by
    rw [hadded]
    decide +kernel
  have hwithdrawing : (clients fun _ => True).answer added.server ⟨⟨0, 1, 2⟩, .modificarAmistad⟩
      = some [{ id := 2, status := .requested }] := by
    rw [hadded]
    decide +kernel
  obtain ⟨_, first, hrun, hfirst, -, hdialog⟩ :=
    Clients.exists_run_of_answer hrun.of_guarded (by simp [clients]) haccepting
  rw [← hfirst] at hwithdrawing
  obtain ⟨_, second, hrun, hsecond, -, hdialogs⟩ :=
    Clients.exists_run_of_answer hrun (by simp [clients]) hwithdrawing
  have hserver : second.server = execAll (twoUsersAnd [⟨1, 2, .add⟩]) :=
    hsecond.trans (hfirst.trans hadded)
  obtain ⟨_, third, hrun, hthird, hwithdrawn, hkept⟩ := @exists_run_of_dialog _ _ _ hrun ⟨0, 1, 2⟩
    _ _ .unfriend (by rw [hdialogs]; exact List.mem_cons_self) (by decide) ⟨1, 2, .remove⟩ rfl
    (by rw [hserver]; decide +kernel)
  have hserver : third.server = execAll (twoUsersAnd [⟨1, 2, .add⟩, ⟨1, 2, .remove⟩]) := by
    rw [hthird, hserver, ← execAll_concat]
    rfl
  obtain ⟨_, last, hrun, hlast, haccepted, -⟩ := @exists_run_of_dialog _ _ _ hrun ⟨1, 2, 1⟩ _ _
    .accept (by rw [hkept, hdialogs, hdialog]; exact List.mem_cons_of_mem _ List.mem_cons_self)
    (by decide) ⟨2, 1, .accept⟩ rfl (by rw [hserver]; decide +kernel)
  have hserver : last.server
      = execAll (twoUsersAnd [⟨1, 2, .add⟩, ⟨1, 2, .remove⟩, ⟨2, 1, .accept⟩]) := by
    rw [hlast, hserver, ← execAll_concat]
    rfl
  refine ⟨_, last, hrun, ?_, fun relation => ?_⟩
  · rw [hserver]
    exact ⟨[{ userId := 2, status := active }], by decide +kernel, List.mem_cons_self⟩
  · rw [haccepted, hwithdrawn, List.filter_append, List.filter_append]
    exact Relation.not_run_withdrawn rfl rfl

/-! ## The colour of the button -/

/-- While nothing happens between two users, the list of one keeps the status that the acts before
left. -/
theorem statusIn_of_quiet {before since : List (Call × Outcome)} (h : Tracks (before ++ since) db)
    {user other : Long} (hquiet : ∀ act ∈ acts since, ¬ act.Between user other) :
    statusIn db user other = statusAfter (acts before) user other := by
  rw [statusIn_eq h, acts, List.filterMap_append]
  exact statusAfter_append hquiet

/-- The status that an answer to the button leaves is the one that it found. -/
theorem estadoTras_solicitud (perfil : Perfil) (action : Solicitud.Action) :
    estadoTras (perfil.solicitud action).act perfil.connectedUserID = nuevoEstado action := by
  rw [estadoTras_eq]
  cases action <;> simp [Perfil.solicitud, Solicitud.act, Solicitud.Action.served, nuevoEstado]

/-- When an answer is shown, the button gets the status that the user had at its moment. -/
theorem screens_of_display (h : (clients inApp).Sound fresh ∅ system) {next : System}
    {consulta : Consulta} {response : List ContactsResponse.Contact}
    {moment : List (Call × Outcome)}
    (hstep : (clients inApp).Step system (.display consulta response moment) next) :
    next.screens consulta.perfil
        = statusAfter (acts moment) consulta.userId consulta.otherId ∧
      next.server = system.server := by
  cases hstep with
  | display hanswer =>
      obtain ⟨-, hat⟩ := h.answers _ hanswer
      refine ⟨?_, rfl⟩
      show Function.update system.screens consulta.perfil _ consulta.perfil = _
      rw [Function.update_self, estado_of_answer hat]

/-- When a request is confirmed, the button gets the status that its act left. -/
theorem screens_of_confirm (h : (clients inApp).Sound fresh ∅ system) {next : System}
    {perfil : Perfil} {action : Solicitud.Action} {moment since : List (Call × Outcome)}
    {made : Call × Outcome}
    (hstep : (clients inApp).Step system (.confirm (perfil, action) moment) next)
    (hserved : system.served = moment ++ made :: since) :
    next.screens perfil = statusAfter (acts (moment ++ [made])) perfil.connectedUserID
        perfil.fetchedUserID ∧
      next.server = system.server := by
  cases hstep with
  | confirm hconfirmation =>
      obtain ⟨answered, ⟨rest, hrest⟩, hserves, hsucceeds⟩ := h.confirmations _ hconfirmation
      rw [hserved, List.append_assoc] at hrest
      cases List.append_cancel_left hrest
      have hacted : acted made = some (perfil.solicitud action).act :=
        acted_of_serves hserves hsucceeds
      have hbetween : (perfil.solicitud action).act.Between perfil.connectedUserID
          perfil.fetchedUserID := contactNetwork.between_iff.mpr (.inl ⟨rfl, rfl⟩)
      refine ⟨?_, rfl⟩
      show Function.update system.screens perfil (nuevoEstado action) perfil = _
      rw [Function.update_self, acts_append_singleton, hacted, Option.toList_some, statusAfter,
        lastThat_append_singleton, if_pos hbetween]
      exact (estadoTras_solicitud perfil action).symm

/-- While nothing happens between the two users, the button shows the status in the list of the
connected user once that list was asked for, and what a request left once it was confirmed. The
list that is asked for with the profile is that of the other user, so it colours the button with
the mirrored status: a request that was sent looks like one that was received. -/
theorem boton_of_run {events : List Evento}
    (h : Run (clients inApp).Step System.initial events system) {next : System}
    {perfil : Perfil} :
    (∀ response moment since,
      (clients inApp).Step system (.display ⟨perfil, .modificarAmistad⟩ response moment) next →
      system.served = moment ++ since →
      (∀ act ∈ acts since, ¬ act.Between perfil.connectedUserID perfil.fetchedUserID) →
      next.screens perfil = statusIn next.server perfil.connectedUserID perfil.fetchedUserID) ∧
    (∀ response moment since,
      (clients inApp).Step system (.display ⟨perfil, .fillProfile⟩ response moment) next →
      system.served = moment ++ since →
      (∀ act ∈ acts since, ¬ act.Between perfil.connectedUserID perfil.fetchedUserID) →
      next.screens perfil
        = (statusIn next.server perfil.connectedUserID perfil.fetchedUserID).mirrored) ∧
    ∀ action moment made since,
      (clients inApp).Step system (.confirm (perfil, action) moment) next →
      system.served = moment ++ made :: since →
      (∀ act ∈ acts since, ¬ act.Between perfil.connectedUserID perfil.fetchedUserID) →
      next.screens perfil = statusIn next.server perfil.connectedUserID perfil.fetchedUserID := by
  have hsound := Clients.sound_of_run (Clients.guarded_of_run h)
  have htracks := tracks_of_run hsound.run
  refine ⟨?_, ?_, ?_⟩
  · intro response moment since hstep hserved hquiet
    obtain ⟨hshown, hserver⟩ := screens_of_display hsound hstep
    rw [hserved] at htracks
    rw [hserver, statusIn_of_quiet htracks hquiet]
    exact hshown
  · intro response moment since hstep hserved hquiet
    obtain ⟨hshown, hserver⟩ := screens_of_display hsound hstep
    rw [hserved] at htracks
    have hdistinct : ∀ act ∈ acts moment, act.authorId ≠ act.contactId := by
      intro act hact
      refine htracks.distinct act ?_
      rw [acts, List.filterMap_append]
      exact List.mem_append_left _ hact
    rw [hserver, statusIn_of_quiet htracks hquiet, ← statusAfter_mirrored hdistinct]
    exact hshown
  · intro action moment made since hstep hserved hquiet
    obtain ⟨hshown, hserver⟩ := screens_of_confirm hsound hstep hserved
    rw [hserved, List.append_cons] at htracks
    rw [hserver, statusIn_of_quiet htracks hquiet]
    exact hshown

/-- The user who added another one opens the profile of that one: the button has the colour of a
request that was received. -/
theorem boton_of_run_added :
    ∃ system : System, statusIn system.server 1 2 = .requested ∧
      system.screens ⟨0, 1, 2⟩ = .received := by
  obtain ⟨_, added, hrun, hadded⟩ := exists_added
  have hanswer : (clients fun _ => True).answer added.server ⟨⟨0, 1, 2⟩, .fillProfile⟩
      = some [{ id := 1, status := .received }] := by
    rw [hadded]
    decide +kernel
  have hasks : (clients fun _ => True).asks ⟨⟨0, 1, 2⟩, .fillProfile⟩ := by simp [clients]
  have hasked := hrun.of_guarded.snoc (Clients.Step.ask hasks)
  have hanswered := hasked.snoc (Clients.Step.answer List.mem_cons_self hanswer)
  have hstatus : statusIn added.server 1 2 = .requested := by
    rw [hadded]
    decide +kernel
  have hboton := (boton_of_run hanswered).2.1 _ _ [] (.display List.mem_cons_self)
    (List.append_nil _).symm (by simp [acts])
  refine ⟨_, ?_, hboton.trans ?_⟩
  · exact hstatus
  · exact congrArg Status.mirrored hstatus

end TallerII.PerfilActivity
