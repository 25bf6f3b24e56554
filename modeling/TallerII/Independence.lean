import TallerII.ContactLists

/-!
# Requests on different pairs

A request of one user towards another writes the links between the two and no others, although it
writes the whole lists of both. So a request leaves every other pair as it was, and requests on
different pairs may be performed in either order, also when they share a user or are refused.
-/

namespace TallerII.PersonManager

open Lib RelationsManager

variable {db : DB} {network : Long → Long → Option Text} {relation : Json} {act : Act}

/-! ## What a request names -/

/-- The two users that a request names. -/
def usersOf (relation : Json) : Except Exn (Long × Long) := do
  let authorId ← (← relation.member "author_id").asLargestInt
  let contactId ← (← relation.member "contact_id").asLargestInt
  return (authorId, contactId)

/-- The action that a request names. -/
def actionOf (relation : Json) : Except Exn Text := do
  (← relation.member "action").asString

/-- The request is on the pair of the two users, in either direction. -/
def OnPair (relation : Json) (user other : Long) : Prop :=
  usersOf relation = .ok (user, other) ∨ usersOf relation = .ok (other, user)

/-- The requests are not on one pair. -/
def OnDifferentPairs (first second : Json) : Prop :=
  ∀ user other, OnPair first user other → ¬ OnPair second user other

/-- The request names an action that does not exist, or a user who does not. -/
def Refused (db : DB) (relation : Json) : Prop :=
  (∃ action, actionOf relation = .ok action ∧ Action.ofText action = none) ∨
    ∃ authorId contactId, usersOf relation = .ok (authorId, contactId) ∧
      ¬ (Manager.userExists db authorId ∧ Manager.userExists db contactId)

/-- An act has the users and the action of its request. -/
theorem names_of_actOf (h : actOf relation = some act) :
    usersOf relation = .ok (act.authorId, act.contactId) ∧
      ∃ action, actionOf relation = .ok action ∧ Action.ofText action = some act.action := by
  simp only [actOf] at h
  split at h
  · rename_i hread
    subst h
    simp only [bind_eq_ok] at hread
    obtain ⟨author, hauthor, authorId, hauthorId, contact, hcontact, contactId, hcontactId,
      action, haction, text, htext, hresult⟩ := hread
    obtain ⟨known, hknown, rfl⟩ := Option.map_eq_some_iff.mp (Except.ok.inj hresult)
    constructor
    · simp only [usersOf, hauthor, hauthorId, hcontact, hcontactId, ok_bind]
      rfl
    · exact ⟨text, by simp only [actionOf, haction, htext, ok_bind], hknown⟩
  · cases h

/-- The pair of an act is the pair of its request. -/
theorem onPair_iff (h : actOf relation = some act) {user other : Long} :
    OnPair relation user other ↔ act.Between user other := by
  rw [OnPair, (names_of_actOf h).1]
  simp only [Except.ok.injEq, Prod.mk.injEq]
  exact contactNetwork.between_iff.symm

/-! ## What a request does -/

/-- Whether an act is admissible can be computed. -/
instance : Decidable (Admissible db act) :=
  inferInstanceAs (Decidable (_ ∧ _ ∧ _))

/-- The act that a request performs, if it is not rejected. -/
def performed (db : DB) (relation : Json) : Option Act :=
  (actOf relation).filter fun act => Admissible db act

/-- The network after a request. -/
def networkAfter (db : DB) (network : Long → Long → Option Text) (relation : Json) :
    Long → Long → Option Text :=
  (performed db relation).elim network (contactNetwork.apply network)

/-- A request is performed when it asks for an act that is admissible. -/
theorem performed_eq_some :
    performed db relation = some act ↔ actOf relation = some act ∧ Admissible db act := by
  simp [performed, Option.filter_eq_some_iff]

/-- A request without an act to perform leaves the store as it was. -/
theorem saveOrUpdateRelation_of_none (h : Represents db network)
    (hnone : performed db relation = none) : (saveOrUpdateRelation db relation).2 = db := by
  rcases saveOrUpdateRelation_cases h relation with
    ⟨e, hthrown⟩ | ⟨act, next, hact, ⟨hauthor, hcontact⟩, hdistinct, -⟩
  · rw [hthrown]
  · have hsome := performed_eq_some.mpr ⟨hact, hauthor, hcontact, hdistinct⟩
    rw [hnone] at hsome
    cases hsome

/-- A request does to the lists what its act does to the network. -/
theorem represents_networkAfter (h : Represents db network) (relation : Json) :
    Represents (saveOrUpdateRelation db relation).2 (networkAfter db network relation) := by
  rw [networkAfter]
  cases hperformed : performed db relation with
  | none =>
      rw [saveOrUpdateRelation_of_none h hperformed]
      exact h
  | some act =>
      obtain ⟨hact, hadmissible⟩ := performed_eq_some.mp hperformed
      obtain ⟨next, hsave, hnext⟩ := h.saveRelation act
      rcases @saveOrUpdateRelation_of_actOf db _ _ hact with ⟨-, hsaved⟩ | ⟨hmissing, -⟩
      · rw [hsaved, hsave]
        exact hnext
      · exact absurd hadmissible hmissing

/-- Requests do not change which users exist, so not which requests are performed either. -/
theorem performed_afterRequest (db : DB) (earlier relation : Json) :
    performed (saveOrUpdateRelation db earlier).2 relation = performed db relation := by
  ext act
  rw [performed_eq_some, performed_eq_some, Admissible, Admissible,
    userExists_saveOrUpdateRelation, userExists_saveOrUpdateRelation]

/-- The statuses of the lists are the links of the network. -/
theorem holds_iff_of_represents (h : Represents db network) {user other : Long} {status : Text} :
    Holds db user other status ↔ network user other = some status := by
  obtain ⟨contacts, hread, hstatuses⟩ := h user
  constructor
  · rintro ⟨stored, hstored, hmem⟩
    rw [hread] at hstored
    cases hstored
    exact (hstatuses _).mp hmem
  · intro hlink
    exact ⟨contacts, hread, (hstatuses _).mpr hlink⟩

/-! ## Independence -/

/-- A request writes no link of another pair. -/
theorem networkAfter_of_not_onPair {user other : Long} (h : ¬ OnPair relation user other) :
    networkAfter db network relation user other = network user other := by
  rw [networkAfter]
  cases hperformed : performed db relation with
  | none => rfl
  | some act =>
      obtain ⟨hact, hadmissible⟩ := performed_eq_some.mp hperformed
      rw [onPair_iff hact] at h
      show contactNetwork.apply network act user other = network user other
      rw [contactNetwork.apply_eq _ hadmissible.2.2, if_neg h]

/-- Requests on different pairs leave the same network in either order. -/
theorem networkAfter_comm {first second : Json} (h : OnDifferentPairs first second) :
    networkAfter db (networkAfter db network first) second
      = networkAfter db (networkAfter db network second) first := by
  simp only [networkAfter]
  cases hfirst : performed db first with
  | none => rfl
  | some act =>
      cases hsecond : performed db second with
      | none => rfl
      | some other =>
          obtain ⟨hact, hadmissible⟩ := performed_eq_some.mp hfirst
          obtain ⟨hother, hotherAdmissible⟩ := performed_eq_some.mp hsecond
          refine contactNetwork.apply_comm network hadmissible.2.2 hotherAdmissible.2.2 ?_
          intro user contact hbetween
          exact mt (onPair_iff hother).mpr (h user contact ((onPair_iff hact).mpr hbetween))

/-- A request that is refused performs nothing. -/
theorem Refused.performed (h : Refused db relation) : performed db relation = none := by
  rw [← Option.not_isSome_iff_eq_none, Option.isSome_iff_exists]
  rintro ⟨act, hperformed⟩
  obtain ⟨hact, hauthor, hcontact, -⟩ := performed_eq_some.mp hperformed
  obtain ⟨husers, text, htext, hknown⟩ := names_of_actOf hact
  rcases h with ⟨action, haction, hnone⟩ | ⟨authorId, contactId, hnamed, hmissing⟩
  · rw [htext] at haction
    cases haction
    rw [hnone] at hknown
    cases hknown
  · rw [husers] at hnamed
    cases hnamed
    exact hmissing ⟨hauthor, hcontact⟩

/-- Two requests in a row set the links of two acts. -/
theorem represents_twoRequests (h : Represents db network) (first second : Json) :
    Represents (afterRequests db [first, second])
      (networkAfter db (networkAfter db network first) second) := by
  have hlast := represents_networkAfter (represents_networkAfter h first) second
  simp only [networkAfter, performed_afterRequest] at hlast ⊢
  exact hlast

/-- In every reachable store, two requests on different pairs leave the same status for every user
and contact in either order, a request leaves the status of every other pair as it was, and one
with an invalid action or an unknown user leaves the whole store as it was. -/
theorem requests_independent (h : Reachable db) :
    (∀ first second, OnDifferentPairs first second → ∀ user other status,
      Holds (afterRequests db [first, second]) user other status ↔
        Holds (afterRequests db [second, first]) user other status) ∧
    (∀ relation user other, ¬ OnPair relation user other → ∀ status,
      Holds (afterRequests db [relation]) user other status ↔ Holds db user other status) ∧
    ∀ relation, Refused db relation → afterRequests db [relation] = db := by
  obtain ⟨answered, htracks⟩ := h.tracks
  have hdb := htracks.represents
  refine ⟨?_, ?_, ?_⟩
  · intro first second hapart user other status
    rw [holds_iff_of_represents (represents_twoRequests hdb first second),
      holds_iff_of_represents (represents_twoRequests hdb second first), networkAfter_comm hapart]
  · intro relation user other hpair status
    have hnext : Represents (afterRequests db [relation]) _ :=
      represents_networkAfter hdb relation
    rw [holds_iff_of_represents hnext, holds_iff_of_represents hdb,
      networkAfter_of_not_onPair hpair]
  · intro relation hrefused
    exact saveOrUpdateRelation_of_none hdb hrefused.performed

/-- Three users. -/
def threeMembers : DB :=
  execAll ([['a'], ['b'], ['c']].map fun mail =>
    .savePerson (Person.sample mail [] []).serializeMe (-1))

/-- The first user adds the second one, and the third one adds the first one: both requests write
the list of the first user. -/
theorem requests_independent_shared :
    (∀ user other status,
      Holds (afterRequests threeMembers [Act.request ⟨1, 2, .add⟩, Act.request ⟨3, 1, .add⟩])
          user other status ↔
        Holds (afterRequests threeMembers [Act.request ⟨3, 1, .add⟩, Act.request ⟨1, 2, .add⟩])
          user other status) ∧
      (∀ status, Holds (afterRequests threeMembers [Act.request ⟨1, 2, .add⟩]) 1 3 status ↔
        Holds threeMembers 1 3 status) ∧
      afterRequests threeMembers [Act.request ⟨1, 4, .add⟩] = threeMembers := by
  have hreachable : Reachable threeMembers := reachable_execAll _
  have hfirst : usersOf (Act.request ⟨1, 2, .add⟩) = .ok (1, 2) := by decide
  have hsecond : usersOf (Act.request ⟨3, 1, .add⟩) = .ok (3, 1) := by decide
  obtain ⟨hcommute, hframe, hrefused⟩ := requests_independent hreachable
  refine ⟨?_, ?_, ?_⟩
  · refine hcommute _ _ ?_
    intro user other hpair
    rw [OnPair, hfirst] at hpair
    rw [OnPair, hsecond]
    rcases hpair with hsame | hsame <;> cases hsame <;> decide
  · refine hframe _ 1 3 ?_
    rw [OnPair, hfirst]
    decide
  · refine hrefused _ (.inr ⟨1, 4, by decide, ?_⟩)
    decide

end TallerII.PersonManager
