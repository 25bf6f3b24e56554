import TallerII.Contacts

/-!
# What two contact lists say of each other

The list of a contact mirrors the list of the user: a request on one side is a received request on
the other. Every act writes mirrored statuses, so the lists of all users agree in every reachable
store. A request to a contact that is active already overwrites both sides.
-/

namespace TallerII

open Lib

namespace RelationsManager

variable {db next : DB}

/-! ## Mirrored statuses -/

/-- The status that the other user of a pair sees. -/
def mirror (status : Text) : Text :=
  if status = requested then received
  else if status = received then requested
  else status

/-- Each action leaves mirrored statuses on the two sides. -/
theorem contactNetwork_mirrored (act : Act) :
    contactNetwork.backward act = (contactNetwork.forward act).map mirror ∧
      contactNetwork.forward act = (contactNetwork.backward act).map mirror := by
  obtain ⟨authorId, contactId, action⟩ := act
  show action.contactStatus = action.authorStatus.map mirror ∧
    action.authorStatus = action.contactStatus.map mirror
  cases action <;> decide

/-- Two mirrors give the status back. -/
@[simp] theorem mirror_mirror (status : Text) : mirror (mirror status) = status := by
  have hother : received ≠ requested := by decide
  by_cases hrequested : status = requested
  · simp [mirror, hrequested, hother]
  · by_cases hreceived : status = received
    · simp [mirror, hreceived, hother]
    · simp [mirror, hrequested, hreceived]

/-- What one asked for, the other one received. -/
@[simp] theorem mirror_requested : mirror requested = received := by decide

/-- Active contacts are active on both sides. -/
@[simp] theorem mirror_active : mirror active = active := by decide

/-! ## Lists without repetitions -/

/-- No list holds the same contact twice. -/
def Unrepeated (db : DB) : Prop :=
  ∀ user contacts, getContactsByUserId db user = .ok contacts →
    (contacts.map Contact.userId).Nodup

/-- Without contacts none is listed twice. -/
theorem unrepeated_empty : Unrepeated ∅ := by
  intro user contacts hread
  rw [getContactsByUserId, DB.existsKey_empty] at hread
  cases hread
  exact List.nodup_nil

/-- Whether contacts are listed twice depends on the lists alone. -/
theorem Unrepeated.congr (h : Unrepeated db)
    (hsame : ∀ rest, next.existsKey (key .contact rest) = db.existsKey (key .contact rest)) :
    Unrepeated next := by
  intro user contacts hread
  rw [getContactsByUserId, hsame] at hread
  exact h user contacts hread

/-- A list without repetitions may be stored. -/
theorem Unrepeated.saveContacts (h : Unrepeated db) {userId : Long} {contacts : List Contact}
    (hcontacts : (contacts.map Contact.userId).Nodup) :
    Unrepeated (saveContacts db userId contacts) := by
  intro user others hread
  rw [getContactsByUserId_saveContacts] at hread
  split at hread
  · cases hread
    exact hcontacts
  · exact h user others hread

/-- Setting a status repeats no contact. -/
theorem nodup_setStatus {contacts : List Contact} (h : (contacts.map Contact.userId).Nodup)
    (contactId : Long) (status : Text) :
    ((setStatus contacts contactId status).map Contact.userId).Nodup := by
  have hids : (contacts.map fun contact =>
      if contact.userId = contactId then { contact with status } else contact).map Contact.userId
        = contacts.map Contact.userId := by
    rw [List.map_map]
    refine List.map_congr_left fun contact _ => ?_
    show (if contact.userId = contactId then { contact with status } else contact).userId
      = contact.userId
    split <;> rfl
  simp only [setStatus]
  split
  · rwa [hids]
  · rename_i hmissing
    rw [List.map_append, hids, List.nodup_append]
    refine ⟨h, List.nodup_singleton _, ?_⟩
    intro id hid other hother heq
    obtain ⟨contact, hcontact, rfl⟩ := List.mem_map.mp hid
    obtain rfl : other = contactId := List.mem_singleton.mp hother
    exact hmissing (List.any_eq_true.mpr ⟨contact, hcontact, decide_eq_true heq⟩)

/-- Adding or updating a contact repeats none. -/
theorem Unrepeated.addOrUpdateRelation (h : Unrepeated db) (keyUserId contactId : Long)
    (status : Text) : Unrepeated (addOrUpdateRelation db keyUserId contactId status).2 := by
  unfold RelationsManager.addOrUpdateRelation
  split
  · exact h
  · rename_i contacts hread
    exact h.saveContacts (nodup_setStatus (h keyUserId contacts hread) contactId status)

/-- Removing a contact repeats none. -/
theorem Unrepeated.removeRelation (h : Unrepeated db) (keyUserId contactId : Long) :
    Unrepeated (removeRelation db keyUserId contactId).2 := by
  unfold RelationsManager.removeRelation
  split
  · exact h
  · rename_i contacts hread
    refine h.saveContacts ?_
    exact (h keyUserId contacts hread).sublist (List.filter_sublist.map Contact.userId)

/-- Neither do two operations, one after another. -/
theorem Unrepeated.andThen (h : Unrepeated db) {first second : DB → Except Exn Unit × DB}
    (hfirst : ∀ db, Unrepeated db → Unrepeated (first db).2)
    (hsecond : ∀ db, Unrepeated db → Unrepeated (second db).2) :
    Unrepeated (andThen first second db).2 := by
  have hmiddle := hfirst db h
  unfold RelationsManager.andThen
  split
  · rename_i hthrown
    rwa [hthrown] at hmiddle
  · rename_i hreturned
    rw [hreturned] at hmiddle
    exact hsecond _ hmiddle

/-- An act repeats no contact in either list. -/
theorem Unrepeated.saveRelation (h : Unrepeated db) (authorId contactId : Long) (action : Text) :
    Unrepeated (saveRelation db authorId contactId action).2 := by
  have hadded (authorStatus contactStatus : Text) : Unrepeated
      (RelationsManager.andThen
        (RelationsManager.addOrUpdateRelation · authorId contactId authorStatus)
        (RelationsManager.addOrUpdateRelation · contactId authorId contactStatus) db).2 :=
    h.andThen (fun _ hdb => hdb.addOrUpdateRelation _ _ _)
      (fun _ hdb => hdb.addOrUpdateRelation _ _ _)
  unfold RelationsManager.saveRelation
  split
  · exact hadded _ _
  · split
    · exact hadded _ _
    · split
      · exact h.andThen (fun _ hdb => hdb.removeRelation _ _)
          (fun _ hdb => hdb.removeRelation _ _)
      · exact h

end RelationsManager

namespace PersonManager

open RelationsManager

variable {db next : DB}

/-! ## Reachable stores -/

/-- No call makes a list repeat a contact. -/
theorem unrepeated_exec (h : Unrepeated db) (call : Call) : Unrepeated (exec db call).2 := by
  by_cases hrelation : ∃ relation, call = .saveOrUpdateRelation relation
  · obtain ⟨relation, rfl⟩ := hrelation
    show Unrepeated (saveOrUpdateRelation db relation).2
    simp only [saveOrUpdateRelation]
    split
    · exact h
    · exact h.saveRelation _ _ _
  · refine h.congr (existsKey_contact_exec fun relation hcall => ?_)
    exact hrelation ⟨relation, hcall⟩

/-- No reachable list repeats a contact. -/
theorem Reachable.unrepeated (h : Reachable db) : Unrepeated db := by
  obtain ⟨calls, hrun⟩ := h
  refine hrun.invariant unrepeated_empty ?_
  rintro before call after hbefore rfl
  exact unrepeated_exec hbefore call

/-- Every reachable store is the one of some acts. -/
theorem Reachable.tracks (h : Reachable db) : ∃ answered, Tracks answered db := by
  obtain ⟨answered, hrun⟩ := h.answered
  exact ⟨answered, tracks_of_run hrun⟩

/-- A status that one list holds is a link of the network. -/
theorem Tracks.holds_iff_link {answered : List (Call × Outcome)} (h : Tracks answered db)
    {user other : Long} {status : Text} :
    Holds db user other status ↔
      contactNetwork.after (acts answered) user other = some status := by
  rw [h.holds_iff, contactNetwork.after_eq h.distinct, Option.bind_eq_some_iff]

/-- The list of the other user holds the mirrored status. -/
theorem Tracks.holds_mirror {answered : List (Call × Outcome)} (h : Tracks answered db)
    {user other : Long} {status : Text} :
    Holds db user other status ↔ Holds db other user (mirror status) := by
  rw [h.holds_iff_link, h.holds_iff_link,
    contactNetwork.after_mirror contactNetwork_mirrored h.distinct user other]
  cases hlink : contactNetwork.after (acts answered) user other with
  | none => simp
  | some link =>
      rw [Option.map_some, Option.some.injEq, Option.some.injEq]
      constructor
      · rintro rfl
        rfl
      · intro hmirror
        rw [← mirror_mirror link, hmirror, mirror_mirror]

/-- In every reachable store the lists of two users agree, and no list holds its owner or the same
contact twice. -/
theorem contacts_consistent (h : Reachable db) (user other : Long) :
    (Holds db user other requested ↔ Holds db other user received) ∧
    (Holds db user other active ↔ Holds db other user active) ∧
    ((∃ status, Holds db user other status) ↔ ∃ status, Holds db other user status) ∧
    ∃ contacts, RelationsManager.getContactsByUserId db user = .ok contacts ∧
      (∀ contact ∈ contacts, contact.userId ≠ user) ∧ (contacts.map Contact.userId).Nodup := by
  obtain ⟨answered, htracks⟩ := h.tracks
  refine ⟨?_, ?_, ?_, ?_⟩
  · rw [htracks.holds_mirror, mirror_requested]
  · rw [htracks.holds_mirror, mirror_active]
  · constructor
    · rintro ⟨status, hholds⟩
      exact ⟨_, htracks.holds_mirror.mp hholds⟩
    · rintro ⟨status, hholds⟩
      exact ⟨_, htracks.holds_mirror.mp hholds⟩
  · obtain ⟨contacts, hread, hstatuses⟩ := htracks.represents user
    refine ⟨contacts, hread, ?_, h.unrepeated user contacts hread⟩
    intro contact hcontact hself
    have hlink := (hstatuses contact).mp hcontact
    rw [hself, contactNetwork.after_self htracks.distinct] at hlink
    cases hlink

/-- The lists of two users of whom one was added. -/
theorem contacts_consistent_added :
    Holds (execAll (twoUsersAnd [⟨1, 2, .add⟩])) 2 1 received := by
  have hadded : Holds (execAll (twoUsersAnd [⟨1, 2, .add⟩])) 1 2 requested :=
    ⟨[⟨2, requested⟩], by decide, List.mem_singleton.mpr rfl⟩
  exact (contacts_consistent (reachable_execAll _) 1 2).1.mp hadded

/-! ## Requests to active contacts -/

/-- The request is an add of one of the two users towards the other. -/
def IsAdd (user other : Long) (relation : Json) : Prop :=
  ∃ act, actOf relation = some act ∧ act.action = .add ∧ act.Between user other

/-- What requests leave, one after another. -/
def afterRequests (db : DB) (relations : List Json) : DB :=
  relations.foldl (fun db relation => (saveOrUpdateRelation db relation).2) db

/-- Both lists hold the other user as active. -/
def BothActive (db : DB) (user other : Long) : Prop :=
  Holds db user other active ∧ Holds db other user active

/-- The two users of an act exist and are not the same. -/
def Admissible (db : DB) (act : Act) : Prop :=
  Manager.userExists db act.authorId ∧ Manager.userExists db act.contactId ∧
    act.authorId ≠ act.contactId

/-- The request of an act is performed when its users are admissible, and else it throws before
any write. -/
theorem saveOrUpdateRelation_of_actOf {relation : Json} {act : Act}
    (hact : actOf relation = some act) :
    Admissible db act ∧ saveOrUpdateRelation db relation
        = saveRelation db act.authorId act.contactId act.action.text ∨
      ¬ Admissible db act ∧ ∃ e, saveOrUpdateRelation db relation = (.error e, db) := by
  simp only [actOf] at hact
  split at hact
  · rename_i hread
    subst hact
    simp only [bind_eq_ok] at hread
    obtain ⟨author, hauthor, authorId, hauthorId, contact, hcontact, contactId, hcontactId,
      action, haction, text, htext, hresult⟩ := hread
    have hknown := Except.ok.inj hresult
    obtain ⟨known, hknownText, rfl⟩ := Option.map_eq_some_iff.mp hknown
    have hsame : known.text = text := (text_of_ofText hknownText).symm
    simp only [saveOrUpdateRelation, hauthor, hauthorId, hcontact, hcontactId, ok_bind, check_eq,
      haction, htext]
    by_cases hauthorExists : Manager.userExists db authorId
    · by_cases hcontactExists : Manager.userExists db contactId
      · by_cases hdistinct : authorId = contactId
        · right
          rw [hauthorExists, hcontactExists, if_pos hdistinct]
          exact ⟨fun hall => hall.2.2 hdistinct, _, rfl⟩
        · left
          rw [hauthorExists, hcontactExists, if_neg hdistinct, hsame]
          exact ⟨⟨hauthorExists, hcontactExists, hdistinct⟩, rfl⟩
      · right
        rw [hauthorExists, Bool.eq_false_iff.mpr hcontactExists]
        exact ⟨fun hall => hcontactExists hall.2.1, _, rfl⟩
    · right
      rw [Bool.eq_false_iff.mpr hauthorExists]
      exact ⟨fun hall => hauthorExists hall.1, _, rfl⟩
  · cases hact

/-- An act between two users is carried out when both exist and differ. -/
theorem admissible_iff {act : Act} {user other : Long} (hbetween : act.Between user other) :
    Admissible db act ↔
      Manager.userExists db user ∧ Manager.userExists db other ∧ user ≠ other := by
  have hpair : act.authorId = user ∧ act.contactId = other ∨
      act.authorId = other ∧ act.contactId = user := contactNetwork.between_iff.mp hbetween
  unfold Admissible
  rcases hpair with ⟨rfl, rfl⟩ | ⟨rfl, rfl⟩
  · rfl
  · rw [ne_comm]
    tauto

/-- Requests leave the ids of users alone. -/
theorem userExists_saveOrUpdateRelation (db : DB) (relation : Json) (userId : Long) :
    Manager.userExists (saveOrUpdateRelation db relation).2 userId
      = Manager.userExists db userId := by
  rw [Manager.userExists, existsKey_saveOrUpdateRelation (by simp), Manager.userExists]

/-- An add between two users who exist leaves no active contact between them, and none comes back
by further adds. -/
theorem not_active_afterRequests {user other : Long} (huser : Manager.userExists db user)
    (hother : Manager.userExists db other) (hdistinct : user ≠ other)
    {network : Long → Long → Option Text} (h : Represents db network) {relations : List Json}
    (hadds : ∀ relation ∈ relations, IsAdd user other relation) (hsome : relations ≠ []) :
    ¬ Holds (afterRequests db relations) user other active := by
  induction relations generalizing db network with
  | nil => exact absurd rfl hsome
  | cons relation rest ih =>
      obtain ⟨act, hact, hadd, hbetween⟩ := hadds relation List.mem_cons_self
      have husers : Admissible db act :=
        (admissible_iff hbetween).mpr ⟨huser, hother, hdistinct⟩
      obtain ⟨next, hsave, hnext⟩ := h.saveRelation act
      have hrequest : (saveOrUpdateRelation db relation).2 = next := by
        rcases @saveOrUpdateRelation_of_actOf db _ _ hact with ⟨-, hperformed⟩ | ⟨hmissing, -⟩
        · rw [hperformed, hsave]
        · exact absurd husers hmissing
      have hafter : afterRequests db (relation :: rest) = afterRequests next rest := by
        rw [← hrequest]
        rfl
      rw [hafter]
      by_cases hlast : rest = []
      · -- the last request is an add, and adding never makes a contact active
        subst hlast
        rintro ⟨contacts, hread, hmem⟩
        obtain ⟨others, hothers, hstatuses⟩ := hnext user
        rw [afterRequests, List.foldl_nil, hothers] at hread
        cases hread
        have hlink := (hstatuses _).mp hmem
        rw [contactNetwork.apply_eq _ husers.2.2, if_pos hbetween] at hlink
        have haccept : act.action = .accept := seenBy_eq_active.mp hlink
        rw [hadd] at haccept
        cases haccept
      · have hkept : ∀ userId, Manager.userExists next userId = Manager.userExists db userId := by
          intro userId
          rw [← hrequest, userExists_saveOrUpdateRelation]
        exact ih (by rwa [hkept]) (by rwa [hkept]) hnext
          (fun later hlater => hadds later (List.mem_cons_of_mem _ hlater)) hlast

/-- A request of a user who does not exist, or to one, changes nothing. -/
theorem afterRequests_missing {user other : Long}
    (hmissing : ¬ (Manager.userExists db user ∧ Manager.userExists db other))
    {relations : List Json} (hadds : ∀ relation ∈ relations, IsAdd user other relation) :
    afterRequests db relations = db := by
  induction relations with
  | nil => rfl
  | cons relation rest ih =>
      obtain ⟨act, hact, -, hbetween⟩ := hadds relation List.mem_cons_self
      have hsame : (saveOrUpdateRelation db relation).2 = db := by
        rcases @saveOrUpdateRelation_of_actOf db _ _ hact with ⟨husers, -⟩ | ⟨-, e, hthrown⟩
        · obtain ⟨huser, hother, -⟩ := (admissible_iff hbetween).mp husers
          exact absurd ⟨huser, hother⟩ hmissing
        · rw [hthrown]
      show afterRequests (saveOrUpdateRelation db relation).2 rest = db
      rw [hsame]
      exact ih fun later hlater => hadds later (List.mem_cons_of_mem _ hlater)

/-- Two users who are active contacts of each other stay so through requests of theirs iff there
is no request or one of the two does not exist. -/
theorem bothActive_afterRequests (h : Reachable db) {user other : Long}
    (hactive : BothActive db user other) {relations : List Json}
    (hadds : ∀ relation ∈ relations, IsAdd user other relation) :
    BothActive (afterRequests db relations) user other ↔
      relations = [] ∨ ¬ (Manager.userExists db user ∧ Manager.userExists db other) := by
  obtain ⟨answered, htracks⟩ := h.tracks
  have hdistinct : user ≠ other := by
    rintro rfl
    have hlink := htracks.holds_iff_link.mp hactive.1
    rw [contactNetwork.after_self htracks.distinct] at hlink
    cases hlink
  constructor
  · intro hstill
    by_contra hnone
    rw [not_or, not_not] at hnone
    obtain ⟨hsome, huser, hother⟩ := hnone
    exact not_active_afterRequests huser hother hdistinct htracks.represents hadds hsome hstill.1
  · rintro (rfl | hmissing)
    · exact hactive
    · rwa [afterRequests_missing hmissing hadds]

/-- Two users who are active contacts of each other. -/
def activeContacts : DB :=
  execAll (twoUsersAnd [⟨1, 2, .add⟩, ⟨2, 1, .accept⟩])

/-- Each of the two lists the other as active. -/
theorem bothActive_activeContacts : BothActive activeContacts 1 2 :=
  ⟨⟨[⟨2, active⟩], by decide, List.mem_singleton.mpr rfl⟩,
    ⟨[⟨1, active⟩], by decide, List.mem_singleton.mpr rfl⟩⟩

/-- One of the two asks again, and neither list shows an active contact any more. -/
theorem active_downgraded :
    Reachable activeContacts ∧ BothActive activeContacts 1 2 ∧
      ¬ BothActive (afterRequests activeContacts [Act.request ⟨1, 2, .add⟩]) 1 2 := by
  refine ⟨reachable_execAll _, bothActive_activeContacts, ?_⟩
  rintro ⟨⟨contacts, hread, hmem⟩, -⟩
  have hrequested : RelationsManager.getContactsByUserId
      (afterRequests activeContacts [Act.request ⟨1, 2, .add⟩]) 1
        = .ok [{ userId := 2, status := requested }] := by decide
  rw [hrequested] at hread
  cases hread
  revert hmem
  decide

/-- Two active contacts, one of whom was deleted since. -/
def activeDeleted : DB :=
  execAll (twoUsersAnd [⟨1, 2, .add⟩, ⟨2, 1, .accept⟩] ++ [.deletePerson 2])

/-- The lists stay as they are when one of the two is deleted. -/
theorem bothActive_activeDeleted : BothActive activeDeleted 1 2 :=
  ⟨⟨[⟨2, active⟩], by decide, List.mem_singleton.mpr rfl⟩,
    ⟨[⟨1, active⟩], by decide, List.mem_singleton.mpr rfl⟩⟩

/-- Each of the two asks the other again. -/
def askedAgain : List Json :=
  [Act.request ⟨1, 2, .add⟩, Act.request ⟨2, 1, .add⟩]

/-- Both requests add the other user. -/
theorem isAdd_askedAgain : ∀ relation ∈ askedAgain, IsAdd 1 2 relation := by
  intro relation hrelation
  rcases List.mem_cons.mp hrelation with rfl | hrelation
  · exact ⟨⟨1, 2, .add⟩, by decide, rfl, by decide⟩
  · rw [List.mem_singleton.mp hrelation]
    exact ⟨⟨2, 1, .add⟩, by decide, rfl, by decide⟩

/-- Both ask again: two users who exist lose their contact, and where one of them was deleted the
requests are refused and the lists keep it. -/
theorem bothActive_afterRequests_askedAgain :
    ¬ BothActive (afterRequests activeContacts askedAgain) 1 2 ∧
      BothActive (afterRequests activeDeleted askedAgain) 1 2 := by
  constructor
  · intro hstill
    rcases (bothActive_afterRequests (reachable_execAll _) bothActive_activeContacts
      isAdd_askedAgain).mp hstill with hnone | hmissing
    · cases hnone
    · exact hmissing (by decide)
  · exact (bothActive_afterRequests (reachable_execAll _) bothActive_activeDeleted
      isAdd_askedAgain).mpr (.inr (by decide))

end PersonManager

end TallerII
