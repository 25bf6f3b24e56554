import TallerII.Lib.Network
import TallerII.Steps

/-!
# The network of contacts

The contact lists of all users are a network with a status for every ordered pair of users.
Adding, accepting and removing a contact each write both directions of a pair whatever they were
before, so the status of a contact is decided by the last such act between the two users.
-/

namespace TallerII

open Lib

namespace RelationsManager

variable {db next : DB}

/-! ## Acts -/

/-- The actions that `saveRelation` knows. -/
inductive Action where
  | add
  | accept
  | remove
deriving Repr, DecidableEq

/-- The text of an action in a request. -/
def Action.text : Action → Text
  | add => addContactAction
  | accept => acceptContactAction
  | remove => removeContactAction

/-- The action with a text. -/
def Action.ofText (text : Text) : Option Action :=
  if text = addContactAction then some .add
  else if text = acceptContactAction then some .accept
  else if text = removeContactAction then some .remove
  else none

/-- The server knows each action by its text. -/
theorem text_of_ofText {text : Text} {action : Action} (h : Action.ofText text = some action) :
    text = action.text := by
  unfold Action.ofText at h
  split at h
  · cases h
    assumption
  · split at h
    · cases h
      assumption
    · split at h
      · cases h
        assumption
      · cases h

/-- What one user does to the relation with another. -/
structure Act where
  authorId : Long
  contactId : Long
  action : Action
deriving Repr, DecidableEq

/-- The request for an act. -/
def Act.request (act : Act) : Json :=
  Json.ofMembers [
    ("author_id", .ofLong act.authorId),
    ("contact_id", .ofLong act.contactId),
    ("action", .string act.action.text)]

/-- The status that the author sees after an action. -/
def Action.authorStatus : Action → Option Text
  | add => some requested
  | accept => some active
  | remove => none

/-- The status that the other user sees after an action. -/
def Action.contactStatus : Action → Option Text
  | add => some received
  | accept => some active
  | remove => none

/-- Acts as they write the network of contacts. -/
def contactNetwork : Linking Act Long Text where
  source := Act.authorId
  target := Act.contactId
  forward act := act.action.authorStatus
  backward act := act.action.contactStatus

/-- The act is between the two users. -/
abbrev Act.Between (user other : Long) (act : Act) : Prop :=
  contactNetwork.between user other act = true

/-- A link is active after an accept, and after nothing else. -/
theorem seenBy_eq_active {user : Long} {act : Act} :
    contactNetwork.seenBy user act = some active ↔ act.action = .accept := by
  obtain ⟨authorId, contactId, action⟩ := act
  show (if authorId = user then action.authorStatus else action.contactStatus) = some active ↔
    action = .accept
  cases action <;> split <;> decide

/-- A user sees a contact as received when the other one added the user. -/
theorem seenBy_eq_received {user : Long} {act : Act} :
    contactNetwork.seenBy user act = some received ↔ act.authorId ≠ user ∧ act.action = .add := by
  obtain ⟨authorId, contactId, action⟩ := act
  show (if authorId = user then action.authorStatus else action.contactStatus) = some received ↔
    authorId ≠ user ∧ action = .add
  by_cases hauthor : authorId = user
  · rw [if_pos hauthor]
    cases action <;> simp [Action.authorStatus, hauthor] <;> decide
  · rw [if_neg hauthor]
    cases action <;> simp [Action.contactStatus, hauthor]
    decide

/-! ## Lists of contacts -/

/-- A contact survives storing and loading. -/
@[simp] theorem Contact.ofJson_toJson (contact : Contact) :
    Contact.ofJson contact.toJson = .ok contact := by
  simp [Contact.ofJson, Contact.toJson, Json.assigned]

/-- The contacts of a user after those of one were saved. -/
theorem getContactsByUserId_saveContacts (db : DB) (userId : Long) (contacts : List Contact)
    (other : Long) :
    getContactsByUserId (saveContacts db userId contacts) other
      = if userId = other then .ok contacts else getContactsByUserId db other := by
  rw [getContactsByUserId, saveContacts, DB.existsKey_putKey]
  by_cases hsame : userId = other
  · rw [if_pos (by rw [hsame]), if_pos hsame]
    simp only [Entry.parse, Json.elements_ofAppended, ok_bind]
    exact mapM_map_of_inverse fun contact _ => Contact.ofJson_toJson contact
  · rw [if_neg (by simpa using hsame), if_neg hsame]
    rfl

/-- The contacts of a list in which a status was set. -/
theorem mem_setStatus {contacts : List Contact} {contactId : Long} {status : Text}
    {contact : Contact} :
    contact ∈ setStatus contacts contactId status ↔
      if contact.userId = contactId then contact.status = status else contact ∈ contacts := by
  -- what the loop over the list makes of it; a contact that is not there is appended afterwards
  have hupdated : contact ∈ contacts.map (fun contact =>
      if contact.userId = contactId then { contact with status } else contact) ↔
      if contact.userId = contactId then
        contact.status = status ∧ contacts.any (·.userId = contactId)
      else contact ∈ contacts := by
    obtain ⟨userId, stored⟩ := contact
    simp only [List.mem_map, List.any_eq_true, decide_eq_true_eq]
    constructor
    · rintro ⟨old, hold, heq⟩
      by_cases hid : old.userId = contactId
      · rw [if_pos hid] at heq
        cases heq
        rw [if_pos hid]
        exact ⟨rfl, old, hold, hid⟩
      · rw [if_neg hid] at heq
        subst heq
        rwa [if_neg hid]
    · intro h
      by_cases hid : userId = contactId
      · rw [if_pos hid] at h
        obtain ⟨rfl, old, hold, hsame⟩ := h
        exact ⟨old, hold, by rw [if_pos hsame, hid, ← hsame]⟩
      · rw [if_neg hid] at h
        exact ⟨_, h, if_neg hid⟩
  simp only [setStatus]
  by_cases hany : contacts.any (·.userId = contactId)
  · rw [if_pos hany, hupdated]
    simp [hany]
  · rw [if_neg hany, List.mem_append, hupdated, List.mem_singleton]
    obtain ⟨userId, stored⟩ := contact
    by_cases hid : userId = contactId
    · simp [hid, hany]
    · simp [hid]

/-- The contacts of a list from which one was removed. -/
theorem mem_withoutContact {contacts : List Contact} {contactId : Long} {contact : Contact} :
    contact ∈ contacts.filter (fun contact => contact.userId ≠ contactId) ↔
      contact.userId ≠ contactId ∧ contact ∈ contacts := by
  rw [List.mem_filter, and_comm, decide_eq_true_iff]

/-! ## The lists represent the network -/

/-- Every list can be read, and holds the statuses of a network. -/
def Represents (db : DB) (network : Long → Long → Option Text) : Prop :=
  ∀ user, ∃ contacts, getContactsByUserId db user = .ok contacts ∧
    ∀ contact, contact ∈ contacts ↔ network user contact.userId = some contact.status

/-- The empty store is the network without acts. -/
theorem represents_empty : Represents ∅ (contactNetwork.after []) := by
  intro user
  refine ⟨[], ?_, by simp⟩
  rw [getContactsByUserId, DB.existsKey_empty]

/-- The lists of contacts are all that a network depends on. -/
theorem Represents.congr {network : Long → Long → Option Text} (h : Represents db network)
    (hsame : ∀ rest, next.existsKey (key .contact rest) = db.existsKey (key .contact rest)) :
    Represents next network := by
  intro user
  obtain ⟨contacts, hread, hstatuses⟩ := h user
  refine ⟨contacts, ?_, hstatuses⟩
  rwa [getContactsByUserId, hsame]

/-- Saving the list of one user writes the links of this user. -/
theorem Represents.saveContacts {network : Long → Long → Option Text} (h : Represents db network)
    {userId contactId : Long} {contacts : List Contact} {link : Option Text}
    (hcontacts : ∀ contact, contact ∈ contacts ↔
      if contact.userId = contactId then link = some contact.status
      else network userId contact.userId = some contact.status) :
    Represents (saveContacts db userId contacts)
      (Linking.set network userId contactId link) := by
  intro user
  rw [getContactsByUserId_saveContacts]
  by_cases hsame : userId = user
  · subst hsame
    refine ⟨contacts, if_pos rfl, ?_⟩
    intro contact
    rw [hcontacts, Linking.set_apply]
    by_cases hcontact : contact.userId = contactId
    · simp [hcontact]
    · simp [hcontact]
  · obtain ⟨others, hread, hstatuses⟩ := h user
    refine ⟨others, by rw [if_neg hsame, hread], ?_⟩
    intro contact
    rw [hstatuses, Linking.set_apply, if_neg fun hboth => hsame hboth.1.symm]

/-- Adding or updating sets one link of the network. -/
theorem Represents.addOrUpdateRelation {network : Long → Long → Option Text}
    (h : Represents db network) (keyUserId contactId : Long) (status : Text) :
    ∃ next, addOrUpdateRelation db keyUserId contactId status = (.ok (), next) ∧
      Represents next (Linking.set network keyUserId contactId (some status)) := by
  obtain ⟨contacts, hread, hstatuses⟩ := h keyUserId
  refine ⟨_, by rw [RelationsManager.addOrUpdateRelation, hread], ?_⟩
  refine h.saveContacts fun contact => ?_
  rw [mem_setStatus, hstatuses]
  split
  · rw [Option.some.injEq, eq_comm]
  · rfl

/-- Removing takes one link out of the network. -/
theorem Represents.removeRelation {network : Long → Long → Option Text}
    (h : Represents db network) (keyUserId contactId : Long) :
    ∃ next, removeRelation db keyUserId contactId = (.ok (), next) ∧
      Represents next (Linking.set network keyUserId contactId none) := by
  obtain ⟨contacts, hread, hstatuses⟩ := h keyUserId
  refine ⟨_, by rw [RelationsManager.removeRelation, hread], ?_⟩
  refine h.saveContacts fun contact => ?_
  rw [mem_withoutContact, hstatuses]
  by_cases hcontact : contact.userId = contactId
  · simp [hcontact]
  · simp [hcontact]

/-- Behind a first operation that succeeds comes the second one. -/
theorem andThen_of_ok {first second : DB → Except Exn Unit × DB} {middle : DB}
    (hfirst : first db = (.ok (), middle)) : andThen first second db = second middle := by
  rw [andThen, hfirst]

/-- `saveRelation` does to the lists what its act does to the network. -/
theorem Represents.saveRelation {network : Long → Long → Option Text} (h : Represents db network)
    (act : Act) :
    ∃ next, saveRelation db act.authorId act.contactId act.action.text = (.ok (), next) ∧
      Represents next (contactNetwork.apply network act) := by
  have hadded (authorStatus contactStatus : Text) : ∃ next,
      andThen (RelationsManager.addOrUpdateRelation · act.authorId act.contactId authorStatus)
        (RelationsManager.addOrUpdateRelation · act.contactId act.authorId contactStatus) db
          = (.ok (), next) ∧
      Represents next (Linking.set (Linking.set network act.authorId act.contactId
        (some authorStatus)) act.contactId act.authorId (some contactStatus)) := by
    obtain ⟨middle, hfirst, hmiddle⟩ :=
      h.addOrUpdateRelation act.authorId act.contactId authorStatus
    obtain ⟨next, hsecond, hnext⟩ :=
      hmiddle.addOrUpdateRelation act.contactId act.authorId contactStatus
    exact ⟨next, (andThen_of_ok hfirst).trans hsecond, hnext⟩
  have hadd : acceptContactAction ≠ addContactAction := by decide
  have hremove : removeContactAction ≠ addContactAction ∧
      removeContactAction ≠ acceptContactAction := by decide
  obtain ⟨authorId, contactId, action⟩ := act
  cases action with
  | add =>
      rw [RelationsManager.saveRelation, Action.text, if_pos rfl]
      exact hadded requested received
  | accept =>
      rw [RelationsManager.saveRelation, Action.text, if_neg hadd, if_pos rfl]
      exact hadded active active
  | remove =>
      obtain ⟨middle, hfirst, hmiddle⟩ := h.removeRelation authorId contactId
      obtain ⟨next, hsecond, hnext⟩ := hmiddle.removeRelation contactId authorId
      rw [RelationsManager.saveRelation, Action.text, if_neg hremove.1, if_neg hremove.2,
        if_pos rfl]
      exact ⟨next, (andThen_of_ok hfirst).trans hsecond, hnext⟩

/-- A text that is not the text of an action is refused before any write; any other one acts on
the network. -/
theorem Represents.saveRelation_cases {network : Long → Long → Option Text}
    (h : Represents db network) (authorId contactId : Long) (text : Text) :
    (∃ e, RelationsManager.saveRelation db authorId contactId text = (.error e, db)) ∨
      ∃ action next, Action.ofText text = some action ∧
        RelationsManager.saveRelation db authorId contactId text = (.ok (), next) ∧
        Represents next (contactNetwork.apply network { authorId, contactId, action }) := by
  cases haction : Action.ofText text with
  | none =>
      left
      unfold Action.ofText at haction
      unfold RelationsManager.saveRelation
      split at haction
      · cases haction
      · split at haction
        · cases haction
        · split at haction
          · cases haction
          · rename_i hadd haccept hremove
            exact ⟨_, by rw [if_neg hadd, if_neg haccept, if_neg hremove]⟩
  | some action =>
      right
      obtain ⟨next, hsave, hnext⟩ := h.saveRelation { authorId, contactId, action }
      rw [text_of_ofText haction]
      exact ⟨action, next, rfl, hsave, hnext⟩

end RelationsManager

namespace PersonManager

open RelationsManager

variable {db next : DB}

/-! ## Runs -/

/-- The act that a relation in a request asks for. -/
def actOf (relation : Json) : Option Act :=
  let act : Except Exn (Option Act) := do
    let authorId ← (← relation.member "author_id").asLargestInt
    let contactId ← (← relation.member "contact_id").asLargestInt
    let action ← (← relation.member "action").asString
    return (Action.ofText action).map fun action => { authorId, contactId, action }
  match act with
  | .ok act => act
  | .error _ => none

/-- The act that a call made: one that threw made none. -/
def acted : Call × Outcome → Option Act
  | (.saveOrUpdateRelation relation, .ok _) => actOf relation
  | _ => none

/-- The acts of calls in order. -/
def acts (answered : List (Call × Outcome)) : List Act :=
  answered.filterMap acted

/-- The acts of some calls and one more. -/
theorem acts_append_singleton (before : List (Call × Outcome)) (answered : Call × Outcome) :
    acts (before ++ [answered]) = acts before ++ (acted answered).toList := by
  rw [acts, List.filterMap_append]
  cases hacted : acted answered <;> simp [hacted, acts]

/-- A request throws before any write, or makes an act of one existing user towards another. -/
theorem saveOrUpdateRelation_cases {network : Long → Long → Option Text}
    (h : Represents db network)
    (relation : Json) :
    (∃ e, saveOrUpdateRelation db relation = (.error e, db)) ∨
      ∃ act next, actOf relation = some act ∧
        (Manager.userExists db act.authorId ∧ Manager.userExists db act.contactId) ∧
        act.authorId ≠ act.contactId ∧ saveOrUpdateRelation db relation = (.ok (), next) ∧
        Represents next (contactNetwork.apply network act) := by
  simp only [saveOrUpdateRelation]
  split
  · exact .inl ⟨_, rfl⟩
  · rename_i authorId contactId text hrequest
    simp only [bind_eq_ok, check_eq_ok] at hrequest
    obtain ⟨author, hauthor, _, hauthorId, contact, hcontact, _, hcontactId, hauthorThere,
      hcontactThere, hdistinct, action, haction, _, htext, hresult⟩ := hrequest
    cases hresult
    rcases h.saveRelation_cases authorId contactId text
      with hthrown | ⟨action, next, hknown, hsave⟩
    · exact .inl hthrown
    · refine .inr ⟨_, next, ?_, ⟨by simpa using hauthorThere, by simpa using hcontactThere⟩,
        hdistinct, hsave⟩
      simp only [actOf, hauthor, hauthorId, hcontact, hcontactId, haction, htext, ok_bind, hknown]
      rfl

/-- Only a relation writes the lists of contacts. -/
theorem existsKey_contact_exec {call : Call}
    (hcall : ∀ relation, call ≠ .saveOrUpdateRelation relation) (rest : Text) :
    (exec db call).2.existsKey (key .contact rest) = db.existsKey (key .contact rest) :=
  existsKey_exec_elsewhere call (apart_key (by simp) rest)
    (fun relation heq => absurd heq (hcall relation)) (by simp) (by simp) (by simp)

/-- The lists of contacts are the network that the acts so far leave. -/
structure Tracks (answered : List (Call × Outcome)) (db : DB) : Prop where
  represents : Represents db (contactNetwork.after (acts answered))
  distinct : ∀ act ∈ acts answered, act.authorId ≠ act.contactId

/-- Without calls nothing is listed. -/
theorem tracks_empty : Tracks [] ∅ :=
  ⟨represents_empty, by simp [acts]⟩

/-- A call that is no act leaves the lists. -/
theorem Tracks.of_none {before : List (Call × Outcome)} {answered : Call × Outcome}
    (h : Tracks before db) (hacted : acted answered = none)
    (hsame : ∀ rest, next.existsKey (key .contact rest) = db.existsKey (key .contact rest)) :
    Tracks (before ++ [answered]) next := by
  have hacts : acts (before ++ [answered]) = acts before := by
    rw [acts_append_singleton, hacted]
    exact List.append_nil _
  refine ⟨?_, ?_⟩
  · rw [hacts]
    exact h.represents.congr hsame
  · rw [hacts]
    exact h.distinct

/-- A call that is an act sets its two links. -/
theorem Tracks.of_act {before : List (Call × Outcome)} {answered : Call × Outcome} {act : Act}
    (h : Tracks before db) (hacted : acted answered = some act)
    (hdistinct : act.authorId ≠ act.contactId)
    (hnext : Represents next (contactNetwork.apply (contactNetwork.after (acts before)) act)) :
    Tracks (before ++ [answered]) next := by
  have hacts : acts (before ++ [answered]) = acts before ++ [act] := by
    rw [acts_append_singleton, hacted]
    rfl
  refine ⟨?_, ?_⟩
  · rw [hacts, Linking.after_append_singleton]
    exact hnext
  · rw [hacts]
    intro other hother
    rcases List.mem_append.mp hother with hold | hnew
    · exact h.distinct other hold
    · rw [List.mem_singleton.mp hnew]
      exact hdistinct

/-- A call keeps the lists in step with the network. -/
theorem Tracks.step {before : List (Call × Outcome)} {answered : Call × Outcome}
    (h : Tracks before db) (hstep : Answers db answered next) :
    Tracks (before ++ [answered]) next := by
  obtain ⟨call, result⟩ := answered
  have hstep : exec db call = (result, next) := hstep
  by_cases hrelation : ∃ relation, call = .saveOrUpdateRelation relation
  · obtain ⟨relation, rfl⟩ := hrelation
    rcases saveOrUpdateRelation_cases h.represents relation with
      ⟨e, hthrown⟩ | ⟨act, after, hact, -, hdistinct, hsaved, hafter⟩
    · rw [exec, hthrown] at hstep
      cases hstep
      exact h.of_none rfl fun _ => rfl
    · rw [exec, hsaved] at hstep
      cases hstep
      exact h.of_act hact hdistinct hafter
  · have hcall : ∀ relation, call ≠ .saveOrUpdateRelation relation := by
      rintro relation rfl
      exact hrelation ⟨relation, rfl⟩
    have hacted : acted (call, result) = none := by
      unfold acted
      split
      · rename_i heq
        cases heq
        exact absurd rfl (hcall _)
      · rfl
    refine h.of_none hacted fun rest => ?_
    have hframe := @existsKey_contact_exec db call hcall rest
    rwa [hstep] at hframe

/-- Along every run the lists are those of the acts. -/
theorem tracks_of_run {answered : List (Call × Outcome)} (h : Run Answers ∅ answered db) :
    Tracks answered db :=
  h.history tracks_empty fun _ _ _ _ hbefore hstep => hbefore.step hstep

/-! ## Consent -/

/-- The list of a user holds another one with a status. -/
def Holds (db : DB) (user other : Long) (status : Text) : Prop :=
  ∃ contacts, RelationsManager.getContactsByUserId db user = .ok contacts ∧
    { userId := other, status } ∈ contacts

/-- A status is what the last act between the two users left. -/
theorem Tracks.holds_iff {answered : List (Call × Outcome)} (h : Tracks answered db)
    {user other : Long} {status : Text} :
    Holds db user other status ↔
      ∃ act, lastThat (contactNetwork.between user other) (acts answered) = some act ∧
        contactNetwork.seenBy user act = some status := by
  obtain ⟨contacts, hread, hstatuses⟩ := h.represents user
  have hlink := contactNetwork.after_eq h.distinct user other
  constructor
  · rintro ⟨stored, hstored, hmem⟩
    rw [hread] at hstored
    cases hstored
    have hstatus := (hstatuses _).mp hmem
    rwa [hlink, Option.bind_eq_some_iff] at hstatus
  · intro hlast
    refine ⟨contacts, hread, (hstatuses _).mpr ?_⟩
    show contactNetwork.after (acts answered) user other = some status
    rwa [hlink, Option.bind_eq_some_iff]

/-- One of two users added the other, who then accepted with no removal between the two acts. -/
def Consent (user other : Long) (made : List Act) : Prop :=
  ∃ (before : List Act) (request : Act) (middle : List Act) (answer : Act) (after : List Act),
    made = before ++ request :: (middle ++ answer :: after) ∧
    request.Between user other ∧ request.action = .add ∧
    answer.authorId = request.contactId ∧ answer.contactId = request.authorId ∧
    answer.action = .accept ∧ ∀ act ∈ middle, act.Between user other → act.action ≠ .remove

/-- A contact is accepted only by a user who sees the other one as received. -/
def Pending (db : DB) (answered : Call × Outcome) : Prop :=
  ∀ act, acted answered = some act → act.action = .accept →
    Holds db act.authorId act.contactId received

/-- What was consented to stays so with later acts. -/
theorem Consent.append {user other : Long} {made : List Act} (h : Consent user other made)
    (later : List Act) : Consent user other (made ++ later) := by
  obtain ⟨before, request, middle, answer, after, rfl, hrest⟩ := h
  refine ⟨before, request, middle, answer, after ++ later, ?_, hrest⟩
  simp only [List.append_assoc, List.cons_append]

/-- The author of an act between two users is one of them, and so is the other one. -/
theorem between_users {user other : Long} {act : Act} (h : act.Between user other) :
    contactNetwork.between act.authorId act.contactId = contactNetwork.between user other := by
  have husers : act.authorId = user ∧ act.contactId = other ∨
      act.authorId = other ∧ act.contactId = user := contactNetwork.between_iff.mp h
  rcases husers with ⟨rfl, rfl⟩ | ⟨rfl, rfl⟩
  · rfl
  · funext later
    exact Linking.between_comm _ _ _ later

/-- An accept by a user who sees the other one as received answers an add of that other one. -/
theorem Tracks.consent_of_accept {answered : List (Call × Outcome)} (h : Tracks answered db)
    {act : Act} (haccept : act.action = .accept)
    (hpending : Holds db act.authorId act.contactId received) {user other : Long}
    (hbetween : act.Between user other) : Consent user other (acts answered ++ [act]) := by
  obtain ⟨request, hlast, hseen⟩ := h.holds_iff.mp hpending
  obtain ⟨hothers, hadd⟩ := seenBy_eq_received.mp hseen
  obtain ⟨hrequest, before, middle, hacts, hmiddle⟩ := lastThat_eq_some.mp hlast
  have husers : request.authorId = act.contactId ∧ request.contactId = act.authorId := by
    have hpair : request.authorId = act.authorId ∧ request.contactId = act.contactId ∨
        request.authorId = act.contactId ∧ request.contactId = act.authorId :=
      contactNetwork.between_iff.mp hrequest
    rcases hpair with ⟨hsame, -⟩ | hswapped
    · exact absurd hsame hothers
    · exact hswapped
  rw [between_users hbetween] at hrequest hmiddle
  refine ⟨before, request, middle, act, [], ?_, hrequest, hadd, husers.2.symm, husers.1.symm,
    haccept, ?_⟩
  · rw [hacts, List.append_assoc, List.cons_append]
  · intro later hlater hsame
    exact absurd hsame (hmiddle later hlater)

/-- When only pending requests are accepted, every active contact is by consent. -/
theorem consent_of_run {answered : List (Call × Outcome)}
    (h : Run (Guarded Answers Pending) ∅ answered db) {user other : Long}
    (hactive : Holds db user other active) : Consent user other (acts answered) := by
  induction h with
  | nil =>
      obtain ⟨act, hlast, -⟩ := tracks_empty.holds_iff.mp hactive
      cases hlast
  | @snoc before state next event hrun hlast ih =>
      obtain ⟨hstep, hpending⟩ := hlast
      have hbefore : Tracks before state := tracks_of_run hrun.of_guarded
      obtain ⟨accept, hact, hseen⟩ := (hbefore.step hstep).holds_iff.mp hactive
      rw [acts_append_singleton] at hact ⊢
      cases hacted : acted event with
      | none =>
          rw [hacted, Option.toList_none, List.append_nil] at hact
          exact (ih (hbefore.holds_iff.mpr ⟨accept, hact, hseen⟩)).append _
      | some act =>
          rw [hacted, Option.toList_some, lastThat_append_singleton] at hact
          split at hact
          · rename_i hbetween
            cases hact
            have haccept := seenBy_eq_active.mp hseen
            exact hbefore.consent_of_accept haccept (hpending _ hacted haccept) hbetween
          · exact (ih (hbefore.holds_iff.mpr ⟨accept, hact, hseen⟩)).append _

/-- A user is an active contact of another iff the last act between the two is an accept. When
only pending requests are accepted, that accept answers an add of the other user. -/
theorem active_iff_accepted {answered : List (Call × Outcome)} (h : Run Answers ∅ answered db)
    (user other : Long) :
    (Holds db user other active ↔
      ∃ (before : List Act) (accept : Act) (after : List Act),
        acts answered = before ++ accept :: after ∧
        accept.Between user other ∧ accept.action = .accept ∧
        ∀ act ∈ after, ¬ act.Between user other) ∧
    (Run (Guarded Answers Pending) ∅ answered db → Holds db user other active →
      Consent user other (acts answered)) := by
  refine ⟨?_, fun hpending hactive => consent_of_run hpending hactive⟩
  rw [(tracks_of_run h).holds_iff]
  constructor
  · rintro ⟨accept, hlast, hseen⟩
    obtain ⟨hbetween, before, after, hacts, hafter⟩ := lastThat_eq_some.mp hlast
    exact ⟨before, accept, after, hacts, hbetween, seenBy_eq_active.mp hseen, hafter⟩
  · rintro ⟨before, accept, after, hacts, hbetween, haccept, hafter⟩
    exact ⟨accept, lastThat_eq_some.mpr ⟨hbetween, before, after, hacts, hafter⟩,
      seenBy_eq_active.mpr haccept⟩

/-- Two users register, and then make some acts. -/
def twoUsersAnd (made : List Act) : List Call :=
  [.savePerson (Person.sample ['a'] [] []).serializeMe (-1),
    .savePerson (Person.sample ['b'] [] []).serializeMe (-1)] ++
    made.map fun act => .saveOrUpdateRelation act.request

/-- A user accepts another one who never asked, and each is an active contact of the other. -/
theorem active_without_request :
    ∃ answered db, Run Answers ∅ answered db ∧ Holds db 1 2 active ∧ Holds db 2 1 active ∧
      ¬ Consent 1 2 (acts answered) := by
  let calls := twoUsersAnd [{ authorId := 1, contactId := 2, action := .accept }]
  have hread (user other : Long)
      (h : RelationsManager.getContactsByUserId (execAll calls) user
        = .ok [{ userId := other, status := active }]) :
      Holds (execAll calls) user other active := ⟨_, h, List.mem_singleton.mpr rfl⟩
  have hacts : acts (answersFrom ∅ calls)
      = [{ authorId := 1, contactId := 2, action := .accept }] := by decide
  refine ⟨_, _, run_answersFrom calls, hread 1 2 (by decide), hread 2 1 (by decide), ?_⟩
  rintro ⟨before, request, middle, answer, after, hmade, -⟩
  rw [hacts] at hmade
  have hlength := congrArg List.length hmade
  simp only [List.length_append, List.length_cons, List.length_nil] at hlength
  omega

/-- A request that is accepted makes an active contact. -/
theorem active_iff_accepted_request :
    Holds (execAll (twoUsersAnd [⟨1, 2, .add⟩, ⟨2, 1, .accept⟩])) 1 2 active := by
  have hacts : acts (answersFrom ∅ (twoUsersAnd [⟨1, 2, .add⟩, ⟨2, 1, .accept⟩]))
      = [⟨1, 2, .add⟩, ⟨2, 1, .accept⟩] := by decide
  refine (active_iff_accepted (run_answersFrom _) 1 2).1.mpr ?_
  exact ⟨[⟨1, 2, .add⟩], ⟨2, 1, .accept⟩, [], hacts, by decide, rfl, by simp⟩

end PersonManager

end TallerII
