import TallerII.ContactLists
import TallerII.Handlers
import TallerII.Searches
import TallerII.Votes

/-!
# References between users

The lists of contacts and of recommendations hold ids of other users. A deletion takes the user
out of the indices, but not out of the lists of others, so the ids of a list stay ids of existing
users as long as nobody is deleted whom another user still lists. `references_intact` says that
exactly then they do, and that then the page of contacts of every user can be shown.
-/

namespace TallerII.PersonManager

open Lib Lib.Ballot Manager RecommendationsManager RelationsManager SessionManager Handler

variable {db next : DB}

/-! ## Lists that mention a user -/

/-- The contacts or the recommendations of a user hold an id. -/
def Mentions (db : DB) (userId other : Long) : Prop :=
  (∃ contacts, RelationsManager.getContactsByUserId db userId = .ok contacts ∧
    other ∈ contacts.map Contact.userId) ∨
  ∃ recommendations, RecommendationsManager.getRecommendationsByUserId db userId
      = .ok recommendations ∧ other ∈ recommendations

/-- The lists of existing users hold existing users only. -/
def Intact (db : DB) : Prop :=
  ∀ userId other, userExists db userId → Mentions db userId other → userExists db other

/-- A call that registers, updates, deletes, relates or recommends users, and returns. -/
def Refers (db : DB) (call : Call) (next : DB) : Prop :=
  (IsAccountCall call ∨ ∃ relation, call = .saveOrUpdateRelation relation) ∧ Returns db call next

/-- Nobody is deleted whom another existing user lists. -/
def Unmentioned (db : DB) : Call → Prop
  | .deletePerson id => ∀ userId, userExists db userId → userId ≠ id → ¬ Mentions db userId id
  | _ => True

/-- Who is mentioned depends on the lists alone. -/
theorem mentions_congr {userId other : Long}
    (hcontact : ∀ rest, next.existsKey (key .contact rest) = db.existsKey (key .contact rest))
    (hlist : ∀ rest, next.existsKey (key .recommendation rest)
      = db.existsKey (key .recommendation rest)) :
    Mentions next userId other ↔ Mentions db userId other := by
  rw [Mentions, Mentions, getRecommendationsByUserId_congr (hlist _),
    RelationsManager.getContactsByUserId, RelationsManager.getContactsByUserId, hcontact]

/-! ## The lists as a network and as votes -/

/-- The lists are those of a network and of votes, and there is none under an id that was not
assigned yet. -/
structure Linked (network : Long → Long → Option Text) (votes : List (Vote Long)) (db : DB) :
    Prop where
  tallies : Tallies votes db
  represents : Represents db network
  counted : ∀ userId other, network userId other ≠ none → Counted db userId

/-- Nobody is mentioned yet. -/
theorem linked_empty : Linked (contactNetwork.after []) [] ∅ :=
  ⟨tallies_empty, represents_empty, fun _ _ hlink => absurd rfl hlink⟩

variable {network : Long → Long → Option Text} {votes : List (Vote Long)}

/-- Who is mentioned is linked or recommends. -/
theorem Linked.mentions_iff (h : Linked network votes db) {userId other : Long} :
    Mentions db userId other ↔ network userId other ≠ none ∨ other ∈ standing userId votes := by
  obtain ⟨contacts, hcontacts, hstatuses⟩ := h.represents userId
  have hlist := h.tallies.lists userId
  constructor
  · rintro (⟨others, hothers, hmem⟩ | ⟨list, hread, hmem⟩)
    · rw [hcontacts] at hothers
      cases hothers
      obtain ⟨contact, hcontact, rfl⟩ := List.mem_map.mp hmem
      left
      rw [(hstatuses contact).mp hcontact]
      simp
    · rw [hlist] at hread
      cases hread
      exact .inr hmem
  · rintro (hlink | hmem)
    · obtain ⟨status, hstatus⟩ := Option.ne_none_iff_exists'.mp hlink
      have hcontact := (hstatuses { userId := other, status }).mpr hstatus
      exact .inl ⟨contacts, hcontacts, List.mem_map.mpr ⟨_, hcontact, rfl⟩⟩
    · exact .inr ⟨_, hlist, hmem⟩

/-- Only ids that were assigned have a list. -/
theorem Linked.counted_of_mentions (h : Linked network votes db) {userId other : Long}
    (hmentions : Mentions db userId other) : Counted db userId := by
  rcases h.mentions_iff.mp hmentions with hlink | hmem
  · exact h.counted userId other hlink
  · obtain ⟨vote, hlast, -⟩ := mem_standing.mp hmem
    obtain ⟨habout, before, after, hvotes, -⟩ := lastThat_eq_some.mp hlast
    have hvote : vote ∈ votes := by
      rw [hvotes]
      exact List.mem_append_right _ List.mem_cons_self
    rw [← (of_decide_eq_true habout).2]
    exact h.tallies.counted vote hvote

/-- An account call keeps the lists. -/
theorem Linked.of_onAccount (h : Linked network votes db) {call : Call} (hon : call.OnAccount)
    (hcall : IsAccountCall call) (hreturns : Returns db call next) :
      Linked network votes next := by
  refine ⟨h.tallies.of_onAccount hon hcall hreturns, ?_, ?_⟩
  · obtain ⟨result, hexec⟩ := hreturns
    refine h.represents.congr fun rest => ?_
    have hsame := @existsKey_exec_of_onAccount db call hon _ (apart_key (.inr (.inl rfl)) rest)
    rwa [hexec] at hsame
  · intro userId other hlink
    obtain ⟨result, hexec⟩ := hreturns
    exact (h.tallies.accounts.returned hcall hexec).2.1 _ (h.counted userId other hlink)

/-- A vote keeps the network. -/
theorem Linked.cast (h : Linked network votes db) {call : Call} {vote : Vote Long}
    (hvote : voteOf call = some vote) (hcall : IsAccountCall call)
    (hreturns : Returns db call next) : Linked network (votes ++ [vote]) next := by
  refine ⟨h.tallies.cast hvote hcall hreturns, ?_, ?_⟩
  · obtain ⟨result, hexec⟩ := hreturns
    refine h.represents.congr fun rest => ?_
    have hsame := @existsKey_contact_exec db call (by
      rintro relation rfl
      exact hcall) rest
    rwa [hexec] at hsame
  · intro userId other hlink
    obtain ⟨result, hexec⟩ := hreturns
    exact (h.tallies.accounts.returned hcall hexec).2.1 _ (h.counted userId other hlink)

/-- A relation that is saved is an act between two existing users, and keeps the votes. -/
theorem Linked.relate (h : Linked network votes db) {relation : Json}
    (hreturns : Returns db (.saveOrUpdateRelation relation) next) :
    ∃ act : Act, (userExists db act.authorId ∧ userExists db act.contactId) ∧
      act.authorId ≠ act.contactId ∧ Linked (contactNetwork.apply network act) votes next := by
  obtain ⟨result, hexec⟩ := hreturns
  obtain ⟨_, hsave, -⟩ := outcome_eq_ok.mp hexec
  rcases saveOrUpdateRelation_cases h.represents relation with
    ⟨e, hthrown⟩ | ⟨act, after, -, hthere, hdistinct, hsaved, hafter⟩
  · rw [hthrown] at hsave
    cases hsave
  · rw [hsaved] at hsave
    cases hsave
    have hkey : ∀ other, (∀ rest, other ≠ key .contact rest) →
        next.existsKey other = db.existsKey other := by
      intro other hother
      have hsame := @existsKey_saveOrUpdateRelation db other hother relation
      rwa [hsaved] at hsame
    have hconsistent : Consistent next := by
      have hconsistent := h.tallies.accounts.consistent.exec (.saveOrUpdateRelation relation)
      rwa [hexec] at hconsistent
    have hcounter : next.existsKey lastID = db.existsKey lastID := hkey lastID (by simp)
    -- a user who exists has an id that was given out
    have hcounted : ∀ id, userExists db id → Counted db id := by
      intro id hid
      obtain ⟨user, huser⟩ := h.tallies.accounts.consistent.getUserById_of_userExists hid
      obtain ⟨-, hread, hsame⟩ := h.tallies.accounts.consistent.getUserById_eq_ok.mp huser
      rw [← hsame]
      exact h.tallies.accounts.counted _ _ hread
    refine ⟨act, hthere, hdistinct, h.tallies.frame hconsistent ?_ hcounter, hafter, ?_⟩
    · intro family rest hfamily
      refine hkey _ fun other => ?_
      rcases hfamily with (rfl | rfl | rfl) | rfl <;> simp
    · intro userId other hlink
      refine Counted.congr ?_ hcounter
      rw [contactNetwork.apply_eq network hdistinct] at hlink
      split at hlink
      · rename_i hbetween
        rcases contactNetwork.between_iff.mp hbetween with ⟨rfl, -⟩ | ⟨-, rfl⟩
        · exact hcounted _ hthere.1
        · exact hcounted _ hthere.2
      · exact h.counted userId other hlink

/-! ## What keeps the lists intact -/

/-- Lists stay intact when no user comes or goes and only existing users are listed anew. -/
theorem Intact.of_mentions (h : Intact db) (hexists : ∀ id, userExists next id = userExists db id)
    (hmentions : ∀ userId other, Mentions next userId other →
      Mentions db userId other ∨ userExists db other) : Intact next := by
  intro userId other huser hmention
  rw [hexists] at huser ⊢
  rcases hmentions userId other hmention with hold | hthere
  · exact h userId other huser hold
  · exact hthere

/-- A call on an account keeps the references exactly when it deletes nobody who is mentioned. -/
theorem Linked.intact_iff_of_onAccount (h : Linked network votes db) (hintact : Intact db)
    {call : Call} (hon : call.OnAccount) (hcall : IsAccountCall call)
    (hreturns : Returns db call next) : Intact next ↔ Unmentioned db call := by
  obtain ⟨result, hexec⟩ := hreturns
  obtain ⟨-, -, hnew⟩ := h.tallies.accounts.returned hcall hexec
  have heffect : Effect db call (.ok result) next := by
    have heffect := effect_exec h.tallies.accounts.consistent call
    rwa [hexec] at heffect
  have hsame : ∀ {other}, Apart other → next.existsKey other = db.existsKey other := by
    intro other hother
    have hsame := @existsKey_exec_of_onAccount db call hon other hother
    rwa [hexec] at hsame
  have hmentions : ∀ userId other, Mentions next userId other ↔ Mentions db userId other := by
    intro userId other
    refine mentions_congr (fun rest => hsame ?_) fun rest => hsame ?_
    · exact apart_key (.inr (.inl rfl)) rest
    · exact apart_key (.inr (.inr (.inl rfl))) rest
  rcases heffect.userExists_of_onAccount h.tallies.accounts.consistent hon with
    ⟨juser, forceID, id, rfl, rfl, hexists⟩ | ⟨id, rfl, hexists⟩ | ⟨hother, hexists⟩
  · refine iff_of_true ?_ trivial
    intro userId other huser hmention
    rw [hmentions] at hmention
    rw [hexists] at huser ⊢
    rcases huser with rfl | huser
    · -- nobody could list anyone under an id that was not given out
      obtain ⟨-, hfresh⟩ := hnew userId rfl
      exact absurd (hfresh _ (h.counted_of_mentions hmention)) (lt_irrefl _)
    · exact .inr (hintact userId other huser hmention)
  · constructor
    · intro hafter userId huser hdistinct hmention
      have hthere := hafter userId id ((hexists userId).mpr ⟨hdistinct, huser⟩)
        ((hmentions userId id).mpr hmention)
      exact ((hexists id).mp hthere).1 rfl
    · intro hguard userId other huser hmention
      rw [hmentions] at hmention
      rw [hexists] at huser ⊢
      obtain ⟨hdistinct, huser⟩ := huser
      refine ⟨?_, hintact userId other huser hmention⟩
      rintro rfl
      exact hguard userId huser hdistinct hmention
  · have hguard : Unmentioned db call := by
      cases call with
      | deletePerson id => exact absurd rfl (hother id)
      | _ => trivial
    refine iff_of_true (hintact.of_mentions ?_ ?_) hguard
    · intro id
      exact Bool.eq_iff_iff.mpr (hexists id)
    · intro userId other hmention
      exact .inl ((hmentions userId other).mp hmention)

/-- A call leaves the lists intact iff it deletes nobody whom another user lists. -/
theorem Linked.intact_iff (h : Linked network votes db) (hintact : Intact db) {call : Call}
    (hrefers : Refers db call next) : Intact next ↔ Unmentioned db call := by
  obtain ⟨hcall, hreturns⟩ := hrefers
  by_cases hon : call.OnAccount
  · rcases hcall with hcall | ⟨relation, rfl⟩
    · exact h.intact_iff_of_onAccount hintact hon hcall hreturns
    · exact absurd hon id
  · have hguard : Unmentioned db call := by
      cases call with
      | deletePerson id => exact absurd trivial hon
      | _ => trivial
    refine iff_of_true ?_ hguard
    have hexists : ∀ id, userExists next id = userExists db id := by
      obtain ⟨result, hexec⟩ := hreturns
      have heffect := effect_exec h.tallies.accounts.consistent call
      rw [hexec] at heffect
      exact heffect.userExists_of_not_onAccount hon
    refine hintact.of_mentions hexists fun userId other hmention => ?_
    rcases hcall with hcall | ⟨relation, rfl⟩
    · cases hvote : voteOf call with
      | none => exact absurd (onAccount_of_none hcall hreturns hvote) hon
      | some vote =>
          obtain ⟨⟨hvoter, -⟩, -⟩ := voted_of_cast h.tallies.accounts.consistent hvote
            (h.tallies.lists vote.target) (nodup_standing _ _) hreturns
          rw [(h.cast hvote hcall hreturns).mentions_iff, standing_append_singleton] at hmention
          rw [h.mentions_iff]
          rcases hmention with hlink | hmem
          · exact .inl (.inl hlink)
          · split at hmem
            · rw [mem_apply] at hmem
              split at hmem
              · rename_i hsame
                rw [← hsame]
                exact .inr hvoter
              · exact .inl (.inr hmem)
            · exact .inl (.inr hmem)
    · obtain ⟨act, ⟨hauthor, hcontact⟩, hdistinct, hnext⟩ := h.relate hreturns
      rw [hnext.mentions_iff, contactNetwork.apply_eq network hdistinct] at hmention
      rw [h.mentions_iff]
      split at hmention
      · rename_i hbetween
        right
        -- a new link is one between two users who exist
        rcases contactNetwork.between_iff.mp hbetween with ⟨-, rfl⟩ | ⟨rfl, -⟩
        · exact hcontact
        · exact hauthor
      · exact .inl hmention

/-! ## Runs -/

/-- The lists are those of some network and votes. -/
def Listed (db : DB) : Prop :=
  ∃ network votes, Linked network votes db

/-- No list is there yet. -/
theorem listed_empty : Listed ∅ :=
  ⟨_, _, linked_empty⟩

/-- Every call keeps the lists readable. -/
theorem Listed.refers (h : Listed db) {call : Call} (hrefers : Refers db call next) :
    Listed next := by
  obtain ⟨_, _, hlinked⟩ := h
  obtain ⟨hcall | ⟨relation, rfl⟩, hreturns⟩ := hrefers
  · cases hvote : voteOf call with
    | none =>
        have hon := onAccount_of_none hcall hreturns hvote
        exact ⟨_, _, hlinked.of_onAccount hon hcall hreturns⟩
    | some vote => exact ⟨_, _, hlinked.cast hvote hcall hreturns⟩
  · obtain ⟨act, -, -, hnext⟩ := hlinked.relate hreturns
    exact ⟨_, _, hnext⟩

/-- Nothing refers to anybody yet. -/
theorem intact_empty : Intact ∅ := by
  intro userId other huser
  rw [userExists, DB.existsKey_empty] at huser
  cases huser

/-- When every contact is an existing user, the page of contacts of an existing user is shown. -/
theorem handleGetRequest_of_intact (hlisted : Listed db) (hintact : Intact db) {userId : Long}
    (huser : userExists db userId) {url : Text} (hurl : getUserIdFromUrl url = .ok userId)
    (session : Option Session) (request : HttpMessage) (files : Text → Option Text) :
    ∃ response : Response, response.IsSuccessful ∧
      (ContactsHandler.handleGetRequest session request url).serve { db, files }
        = (.ok response, { db, files }) := by
  obtain ⟨network, votes, hlinked⟩ := hlisted
  obtain ⟨contacts, hcontacts, -⟩ := hlinked.represents userId
  have hread : getContactsByUserId db userId = .ok contacts := by
    rw [getContactsByUserId, huser]
    exact hcontacts
  obtain ⟨body, hbody⟩ : ∃ body, ContactsHandler.contactsBody db contacts = .ok body := by
    have hshown : ∀ contact ∈ contacts, ∃ shown, (do
        let person ← getUserById db contact.userId
        return ContactsHandler.contactAsJson contact person) = (.ok shown : Except Exn Json) := by
      intro contact hcontact
      have hthere : userExists db contact.userId :=
        hintact userId _ huser (.inl ⟨contacts, hcontacts, List.mem_map.mpr ⟨_, hcontact, rfl⟩⟩)
      obtain ⟨person, hperson⟩ :=
        hlinked.tallies.accounts.consistent.getUserById_of_userExists hthere
      rw [hperson]
      exact ⟨_, rfl⟩
    obtain ⟨shown, hall⟩ := exists_mapM_eq_ok hshown
    rw [ContactsHandler.contactsBody, hall]
    exact ⟨_, rfl⟩
  refine ⟨(({} : Response).setSuccessfulHeader).setBody body.toStyledString, rfl, ?_⟩
  refine Action.serve_handling_ok ?_ _
  rw [Action.serve_bind_ok (by rw [Action.serve_ofExcept, hurl]),
    Action.serve_bind_ok (by rw [Action.serve_query, hread]),
    Action.serve_bind_ok (by rw [Action.serve_query, hbody]), Action.serve_pure]

/-- The lists of existing users hold existing users throughout a run iff it deletes nobody whom
another user lists at that moment. Then the page of contacts of every existing user is shown. -/
theorem references_intact {calls : List Call} :
    (Run (Guarded Refers Unmentioned) ∅ calls db ↔
      Run (fun db call next => Refers db call next ∧ Intact next) ∅ calls db) ∧
    (Run (Guarded Refers Unmentioned) ∅ calls db →
      Intact db ∧ ∀ userId url, userExists db userId → getUserIdFromUrl url = .ok userId →
        ∀ session request files, ∃ response : Response, response.IsSuccessful ∧
          (ContactsHandler.handleGetRequest session request url).serve { db, files }
            = (.ok response, { db, files })) := by
  have hkeep : ∀ db call next, Listed db → Refers db call next → Listed next :=
    fun _ _ _ hbefore hrefers => hbefore.refers hrefers
  have hexact : ∀ db call next, Listed db → Intact db → Refers db call next →
      (Intact next ↔ Unmentioned db call) := by
    intro db call next hbefore hintact hrefers
    obtain ⟨_, _, hlinked⟩ := hbefore
    exact hlinked.intact_iff hintact hrefers
  refine ⟨Run.guarded_iff listed_empty hkeep intact_empty hexact, fun h => ?_⟩
  obtain ⟨hlisted, hintact⟩ := Run.invariant_of_guarded listed_empty hkeep intact_empty
    (fun _ _ _ hbefore hinv hrefers => (hexact _ _ _ hbefore hinv hrefers).mpr) h
  refine ⟨hintact, fun userId url huser hurl session request files => ?_⟩
  exact handleGetRequest_of_intact hlisted hintact huser hurl session request files

/-- Two users, of whom one asked to be a contact of the other. -/
def listedContact : List Call :=
  twoUsersAnd [{ authorId := 1, contactId := 2, action := .add }]

/-- A request that carries nothing of its own. -/
def getRequest : HttpMessage where
  method := "GET".toList
  uri := "/contacts/1".toList
  queryString := []
  authorization := none
  body := []
  bodyLen := 0

/-- The page of contacts of the user is shown. -/
theorem references_intact_listed :
    ∃ response : Response, response.IsSuccessful ∧
      (ContactsHandler.handleGetRequest none getRequest getRequest.uri).serve
          { db := execAll listedContact, files := fun _ => none }
        = (.ok response, { db := execAll listedContact, files := fun _ => none }) := by
  have hrun := @run_returning (fun call =>
      (IsAccountCall call ∨ ∃ relation, call = .saveOrUpdateRelation relation) ∧
        ∀ id, call ≠ .deletePerson id) listedContact
    (by simp [listedContact, twoUsersAnd, IsAccountCall]) (by decide)
  have hguarded : Run (Guarded Refers Unmentioned) ∅ listedContact (execAll listedContact) := by
    refine hrun.mono fun db call next hstep => ?_
    obtain ⟨⟨hcall, hother⟩, hreturns⟩ := hstep
    refine ⟨⟨hcall, hreturns⟩, ?_⟩
    cases call with
    | deletePerson id => exact absurd rfl (hother id)
    | _ => trivial
  exact (references_intact.2 hguarded).2 1 getRequest.uri (by decide) (by decide) none _ _

/-- The contact is deleted: the user still lists an id that nobody has, and the page of contacts
of the user is not found. -/
theorem deletePerson_leaves_contact :
    ∃ calls db, Run Refers ∅ calls db ∧ userExists db 1 ∧ Mentions db 1 2 ∧ ¬ userExists db 2 ∧
      ∃ response : Response, ¬ response.IsSuccessful ∧
        (ContactsHandler.handleGetRequest none getRequest getRequest.uri).serve
            { db, files := fun _ => none } = (.ok response, { db, files := fun _ => none }) := by
  have hlist : getContactsByUserId (execAll (listedContact ++ [.deletePerson 2])) 1
      = .ok [{ userId := 2, status := requested }] := by decide
  have hurl : getUserIdFromUrl getRequest.uri = .ok 1 := by decide
  have hmissing : getUserById (execAll (listedContact ++ [.deletePerson 2])) 2
      = .error (.userNotFoundId 2) := by rfl
  refine ⟨listedContact ++ [.deletePerson 2], _, run_returning ?_ (by decide), by decide, ?_,
    by decide, (({} : Response).setNotFoundHeader).setErrorBody (userNotFoundMessageId 2), ?_, ?_⟩
  · simp [listedContact, twoUsersAnd, IsAccountCall]
  · exact .inl ⟨[{ userId := 2, status := requested }], by decide, by decide⟩
  · decide
  · refine Action.serve_handling_error (e := .userNotFoundId 2) ?_ _
    rw [Action.serve_bind_ok (by rw [Action.serve_ofExcept, hurl]),
      Action.serve_bind_ok (by rw [Action.serve_query, hlist])]
    refine Action.serve_bind_error ?_
    rw [Action.serve_query, ContactsHandler.contactsBody, List.mapM_cons, hmissing]
    rfl

end TallerII.PersonManager
