import TallerII.Conversations
import TallerII.Strings

/-!
# The documents of a reachable store

Every document in a reachable store is one that the managers write, with doubles for coordinates
(`Documented`). So the strings of the store are read: `loaded_of_run` says that what is loaded
from them is what the managers of this development read.
-/

namespace TallerII.PersonManager

open Lib Reader Manager RelationsManager RecommendationsManager MessagesManager

variable {db next : DB}

/-- The coordinates of the profile in a request are doubles, as `asDouble` gives them. -/
def LocatedCall : Call → Prop
  | .savePerson juser _ => ∀ user, Person.ofJson juser = .ok user → user.Located
  | .updateUser juser => ∀ user, Person.ofJson juser = .ok user → user.Located
  | _ => True

/-! ## Profiles -/

/-- An updated user has doubles for the coordinates. -/
theorem located_merged {newUser oldUser : Person} (hnew : newUser.Located)
    (hold : oldUser.Located) :
    (mergeUser newUser oldUser).Located := by
  unfold mergeUser
  by_cases hempty : newUser.location.isEmpty
  · exact ⟨by simpa [hempty] using hold.latitude, by simpa [hempty] using hold.longitude⟩
  · exact ⟨by simpa [hempty] using hnew.latitude, by simpa [hempty] using hnew.longitude⟩

/-- The profiles after a call are old ones, or made of old ones and of the one in the request. -/
theorem Effect.located {call : Call} {result : Outcome} (heffect : Effect db call result next)
    (hconsistent : Consistent db) (hcall : LocatedCall call)
    (h : ∀ mail user, getUserByMail db mail = .ok user → user.Located) {mail : Text}
    {user : Person}
    (hread : getUserByMail next mail = .ok user) : user.Located := by
  cases heffect with
  | kept _ hsame =>
      rw [getUserByMail, hsame .userMail mail (.inl rfl)] at hread
      exact h mail user hread
  | @registered juser forceID id profile counted _ hprofile hfree hassigned hrecord =>
      rw [getUserByMail_of_saved (normalized_registered (Person.normalized_of_ofJson hprofile) id)
        hrecord] at hread
      split at hread
      · cases hread
        have hlocated := hcall profile hprofile
        exact ⟨hlocated.latitude, hlocated.longitude⟩
      · exact h mail user hread
  | @updated juser newUser oldUser _ hprofile hold hrecord =>
      obtain ⟨-, holdRecord, -⟩ := hconsistent.getUserById_eq_ok.mp hold
      rw [getUserByMail_of_saved (hconsistent.normalized_updated hprofile holdRecord) hrecord]
        at hread
      split at hread
      · cases hread
        have hnew := hcall newUser hprofile
        exact located_merged ⟨hnew.latitude, hnew.longitude⟩ (h _ _ holdRecord)
      · exact h mail user hread
  | @recommended _ _ profile total _ _ hprofile hrecord =>
      obtain ⟨-, -, hnormalized⟩ := hconsistent.getUserByMail_eq_ok.mp hprofile
      rw [getUserByMail_of_saved (normalized_rated hnormalized total) hrecord] at hread
      split at hread
      · cases hread
        have hlocated := h _ _ hprofile
        exact ⟨hlocated.latitude, hlocated.longitude⟩
      · exact h mail user hread
  | @deleted id profile _ hprofile hrecord =>
      rw [getUserByMail_of_deleted hrecord] at hread
      split at hread
      · cases hread
      · exact h mail user hread
  | @halfDeleted id profile e _ hprofile hrecord =>
      rw [getUserByMail, hrecord] at hread
      exact h mail user hread

/-! ## Lists -/

/-- Whatever is written under a key by the parts of an operation is written by it. -/
theorem andThen_keeps {Inv : DB → Prop} {first second : DB → Except Exn Unit × DB}
    (hfirst : ∀ db, Inv db → Inv (first db).2) (hsecond : ∀ db, Inv db → Inv (second db).2)
    {db : DB}
    (h : Inv db) : Inv (andThen first second db).2 := by
  have hmiddle := hfirst db h
  unfold andThen
  split
  · rename_i hthrown
    rwa [hthrown] at hmiddle
  · rename_i hreturned
    rw [hreturned] at hmiddle
    exact hsecond _ hmiddle

/-- The lists of contacts that are stored are those of contacts. -/
def WrittenContacts (db : DB) : Prop :=
  ∀ rest entry, db.existsKey (key .contact rest) = some entry →
    ∃ contacts : List Contact, entry = .json (Json.ofAppended (contacts.map Contact.toJson))

/-- A list of contacts may be stored. -/
theorem WrittenContacts.saveContacts (h : WrittenContacts db) (userId : Long)
    (contacts : List Contact) :
    WrittenContacts (saveContacts db userId contacts) := by
  intro rest entry hentry
  rw [RelationsManager.saveContacts, DB.existsKey_putKey] at hentry
  split at hentry
  · cases hentry
    exact ⟨contacts, rfl⟩
  · exact h rest entry hentry

/-- An act stores lists of contacts. -/
theorem WrittenContacts.saveRelation (h : WrittenContacts db) (authorId contactId : Long)
    (action : Text) :
    WrittenContacts (saveRelation db authorId contactId action).2 := by
  have hadd : ∀ (userId contactId : Long) (status : Text) (db : DB), WrittenContacts db →
      WrittenContacts (addOrUpdateRelation db userId contactId status).2 := by
    intro userId contactId status db hdb
    unfold addOrUpdateRelation
    split
    · exact hdb
    · exact hdb.saveContacts userId _
  have hremove : ∀ (userId contactId : Long) (db : DB), WrittenContacts db →
      WrittenContacts (removeRelation db userId contactId).2 := by
    intro userId contactId db hdb
    unfold removeRelation
    split
    · exact hdb
    · exact hdb.saveContacts userId _
  unfold RelationsManager.saveRelation
  split
  · exact andThen_keeps (hadd _ _ _) (hadd _ _ _) h
  · split
    · exact andThen_keeps (hadd _ _ _) (hadd _ _ _) h
    · split
      · exact andThen_keeps (hremove _ _) (hremove _ _) h
      · exact h

/-- The lists of recommendations that are stored are those of ids. -/
def WrittenRecommendations (db : DB) : Prop :=
  ∀ rest entry, db.existsKey (key .recommendation rest) = some entry →
    ∃ recommendations, entry = .json (buildJsonToSave recommendations)

/-- A list of recommendations may be stored. -/
theorem WrittenRecommendations.saveRecommendations (h : WrittenRecommendations db) (userId : Long)
    (recommendations : List Long) :
      WrittenRecommendations (saveRecommendations db userId recommendations) := by
  intro rest entry hentry
  rw [RecommendationsManager.saveRecommendations, DB.existsKey_putKey] at hentry
  split at hentry
  · cases hentry
    exact ⟨recommendations, rfl⟩
  · exact h rest entry hentry

/-- A recommendation that is added or removed is written to a list, and the total to a record. -/
theorem WrittenRecommendations.updateTotal (h : WrittenRecommendations db) (userId : Long)
    (recommendations : List Long) (delta : Int32) (id : Long) :
    WrittenRecommendations
      (updateTotalRecommendation
        (RecommendationsManager.saveRecommendations db userId recommendations) delta id).2 := by
  intro rest entry hentry
  rw [existsKey_updateTotalRecommendation (by simp)] at hentry
  exact h.saveRecommendations userId recommendations rest entry hentry

/-- The conversations that are stored are those of messages. -/
def WrittenConversations (db : DB) : Prop :=
  ∀ user contact entry, db.existsKey (getKey user contact) = some entry →
    ∃ messages : List Message, entry = .json (Json.ofAppended (messages.map Message.serializeMe))

/-- A conversation may be stored. -/
theorem WrittenConversations.saveConversation (h : WrittenConversations db)
    (fromUserId toUserId : Long)
    (messages : List Message) :
      WrittenConversations (saveConversation db fromUserId toUserId messages) := by
  intro user contact entry hentry
  rw [MessagesManager.saveConversation, DB.existsKey_putKey] at hentry
  split at hentry
  · cases hentry
    exact ⟨messages, rfl⟩
  · exact h user contact entry hentry

/-! ## The invariant -/

/-- What the managers write under their keys. -/
structure Documented (db : DB) : Prop where
  profiles : ∀ mail user, getUserByMail db mail = .ok user → user.Located
  contacts : WrittenContacts db
  recommendations : WrittenRecommendations db
  conversations : WrittenConversations db

/-- There is no document yet. -/
theorem Documented.empty : Documented ∅ := by
  constructor
  · intro mail user hread
    rw [getUserByMail, DB.existsKey_empty] at hread
    cases hread
  all_goals
    intro
    simp only [DB.existsKey_empty, reduceCtorEq, false_implies, implies_true]

/-- Every call stores lists of contacts. -/
theorem writtenContacts_exec (h : WrittenContacts db) (call : Call) :
    WrittenContacts (exec db call).2 := by
  by_cases hcall : ∃ relation, call = .saveOrUpdateRelation relation
  · obtain ⟨relation, rfl⟩ := hcall
    show WrittenContacts (saveOrUpdateRelation db relation).2
    unfold saveOrUpdateRelation
    dsimp only
    split
    · exact h
    · exact h.saveRelation _ _ _
  · intro rest entry hentry
    have hsame :=
      @existsKey_exec_elsewhere db (key .contact rest) call (apart_key (.inr (.inl rfl)) rest)
      (fun relation hrelation => absurd ⟨relation, hrelation⟩ hcall) (by simp) (by simp)
      fun user contact => getKey_ne_key
    exact h rest entry (hsame ▸ hentry)

/-- Every call stores lists of recommendations. -/
theorem writtenRecommendations_exec (h : WrittenRecommendations db) (call : Call) :
    WrittenRecommendations (exec db call).2 := by
  have helsewhere : (∀ rest, (exec db call).2.existsKey (key .recommendation rest) =
      db.existsKey (key .recommendation rest)) → WrittenRecommendations (exec db call).2 :=
    fun hsame rest entry hentry => h rest entry (hsame rest ▸ hentry)
  have hupdated : ∀ {operation : Except Exn Unit × DB} {toId : Long} {delta : Int32},
      (operation.2 = db ∨ ∃ recommendations, operation =
        updateTotalRecommendation (saveRecommendations db toId recommendations) delta toId) →
      WrittenRecommendations operation.2 := by
    rintro operation toId delta (hsame | ⟨recommendations, rfl⟩)
    · rwa [hsame]
    · exact h.updateTotal toId recommendations delta toId
  cases call with
  | saveRecommendation recommendation =>
      show WrittenRecommendations (saveRecommendation db recommendation).2
      unfold saveRecommendation
      split
      · exact h
      · exact hupdated (addRecommendation_cases db _ _)
  | removeRecommendation fromUserId toUserId =>
      show WrittenRecommendations (PersonManager.removeRecommendation db fromUserId toUserId).2
      unfold PersonManager.removeRecommendation
      split
      · exact h
      · exact hupdated (removeRecommendation_cases db _ _)
  | savePerson juser forceID =>
      exact helsewhere fun rest => existsKey_savePerson (apart_key (by simp) rest) juser forceID
  | updateUser juser =>
      exact helsewhere fun rest => existsKey_updateUser (apart_key (by simp) rest) juser
  | deletePerson id =>
      exact helsewhere fun rest => existsKey_deletePerson (apart_key (by simp) rest) id
  | saveOrUpdateRelation relation =>
      exact helsewhere fun rest => existsKey_saveOrUpdateRelation (by simp) relation
  | saveMessage now request =>
      exact helsewhere fun rest => existsKey_saveMessage (fun _ _ => getKey_ne_key) now request
  | setMessagesAsReceived fromUserId toUserId deliveredMessages =>
      exact helsewhere fun rest => existsKey_setMessagesAsReceived getKey_ne_key deliveredMessages
  | setOrUpdateNotificationToken request userId =>
      exact helsewhere fun rest => existsKey_setOrUpdateNotificationToken (by simp) request userId

/-- Every call stores conversations. -/
theorem writtenConversations_exec (h : WrittenConversations db) (call : Call) :
    WrittenConversations (exec db call).2 := by
  have helsewhere : (∀ user contact, (exec db call).2.existsKey (getKey user contact) =
      db.existsKey (getKey user contact)) → WrittenConversations (exec db call).2 :=
    fun hsame user contact entry hentry => h user contact entry (hsame user contact ▸ hentry)
  cases call with
  | saveMessage now request =>
      show WrittenConversations (saveMessage db now request).2
      unfold saveMessage
      dsimp only
      split
      · exact h
      · unfold MessagesManager.saveMessage
        dsimp only
        split
        · exact h
        · exact h.saveConversation _ _ _
  | setMessagesAsReceived fromUserId toUserId deliveredMessages =>
      show WrittenConversations (setMessagesAsReceived db fromUserId toUserId deliveredMessages).2
      unfold setMessagesAsReceived
      split
      · exact h
      · exact h.saveConversation _ _ _
  | savePerson juser forceID =>
      exact helsewhere fun _ _ => existsKey_savePerson (apart_getKey _ _) juser forceID
  | updateUser juser => exact helsewhere fun _ _ => existsKey_updateUser (apart_getKey _ _) juser
  | deletePerson id => exact helsewhere fun _ _ => existsKey_deletePerson (apart_getKey _ _) id
  | saveOrUpdateRelation relation =>
      exact helsewhere fun _ _ => existsKey_saveOrUpdateRelation (fun _ => getKey_ne_key) relation
  | saveRecommendation recommendation =>
      exact helsewhere fun _ _ =>
        existsKey_saveRecommendation (fun _ => getKey_ne_key) (fun _ => getKey_ne_key) _
  | removeRecommendation fromUserId toUserId =>
      exact helsewhere fun _ _ =>
        existsKey_removeRecommendation (fun _ => getKey_ne_key) (fun _ => getKey_ne_key) _ _
  | setOrUpdateNotificationToken request userId =>
      exact helsewhere fun _ _ =>
        existsKey_setOrUpdateNotificationToken (fun _ => getKey_ne_key) request userId

/-- Every call keeps the documents. -/
theorem documented_exec (h : Documented db) (hconsistent : Consistent db) {call : Call}
    (hcall : LocatedCall call) :
    Documented (exec db call).2 where
  profiles _ _ hread := (effect_exec hconsistent call).located hconsistent hcall h.profiles hread
  contacts := writtenContacts_exec h.contacts call
  recommendations := writtenRecommendations_exec h.recommendations call
  conversations := writtenConversations_exec h.conversations call

/-! ## Loading -/

/-- Along every run the documents are those of the managers. -/
theorem documented_of_run {calls : List Call}
    (h : Lib.Run (Lib.Guarded Calls fun _ call => LocatedCall call) ∅ calls db) :
    Consistent db ∧ Documented db := by
  refine @Lib.Run.invariant _ _ _ _ _ _ (fun db => Consistent db ∧ Documented db)
    ⟨Consistent.empty, Documented.empty⟩ ?_ h
  rintro state call _ ⟨hconsistent, hdocumented⟩ ⟨rfl, hlocated⟩
  exact ⟨hconsistent.exec call, documented_exec hdocumented hconsistent hlocated⟩

/-- Whatever a run of calls stored, its string is read, and to the values that the managers
return. -/
theorem loaded_of_run {calls : List Call}
    (h : Lib.Run (Lib.Guarded Calls fun _ call => LocatedCall call) ∅ calls db) :
    (∀ mail entry, db.existsKey (key .userMail mail) = some entry →
      ∃ user, getUserByMail db mail = .ok user ∧ Loads Person.ofJson entry user) ∧
    (∀ userId entry, db.existsKey (key .contact (toString userId)) = some entry →
      ∃ contacts, RelationsManager.getContactsByUserId db userId = .ok contacts ∧
        Loads (readItems Contact.ofJson) entry contacts) ∧
    (∀ userId entry, db.existsKey (key .recommendation (toString userId)) = some entry →
      ∃ recommendations, getRecommendationsByUserId db userId = .ok recommendations ∧
        Loads parseRecommendationsString entry recommendations) ∧
    ∀ user contact entry, db.existsKey (getKey user contact) = some entry →
      ∃ messages, MessagesManager.getMessages db user contact = .ok messages ∧
        Loads (readItems Message.ofJson) entry messages := by
  obtain ⟨hconsistent, hdocumented⟩ := documented_of_run h
  refine ⟨fun mail entry hentry => ?_, fun userId entry hentry => ?_, fun userId entry hentry =>
    ?_,
    fun user contact entry hentry => ?_⟩
  · obtain ⟨user, rfl, -, hnormalized⟩ := hconsistent.record mail entry hentry
    have hread := getUserByMail_of_stored hnormalized hentry
    exact ⟨user, hread, loads_person hnormalized (hdocumented.profiles mail user hread)⟩
  · obtain ⟨contacts, rfl⟩ := hdocumented.contacts _ entry hentry
    refine ⟨contacts, ?_, loads_contacts contacts⟩
    rw [RelationsManager.getContactsByUserId, hentry]
    simp only [Entry.parse, Json.elements_ofAppended, ok_bind]
    exact mapM_map_of_inverse fun contact _ => Contact.ofJson_toJson contact
  · obtain ⟨recommendations, rfl⟩ := hdocumented.recommendations _ entry hentry
    refine ⟨recommendations, ?_, loads_recommendations recommendations⟩
    rw [getRecommendationsByUserId, hentry]
    exact parseRecommendationsString_buildJsonToSave recommendations
  · obtain ⟨messages, rfl⟩ := hdocumented.conversations user contact entry hentry
    refine ⟨messages, ?_, loads_conversation messages⟩
    rw [MessagesManager.getMessages, hentry]
    simp only [Entry.parse, Json.elements_ofAppended, ok_bind]
    exact mapM_map_of_inverse fun message _ => Message.ofJson_serializeMe message

/-- The sample users have doubles for their coordinates. -/
theorem located_sample (email : Text) (skillNames positionTitles : List Text) :
    (Person.sample email skillNames positionTitles).Located := by
  have hzero : IsDouble 0 :=
    Binary.Format.IsNumber.zero (by decide : binary64.minExponent ≤ binary64.maxExponent)
  exact ⟨hzero, hzero⟩

/-- The profile of a user who registered is loaded from its string. -/
theorem loaded_of_run_registered :
    ∃ entry user, (execAll [.savePerson (Person.sample ['a'] [] []).serializeMe (-1)]).existsKey
      (key .userMail ['a']) = some entry ∧ Loads Person.ofJson entry user := by
  let call := Call.savePerson (Person.sample ['a'] [] []).serializeMe (-1)
  have hlocated : LocatedCall call := by
    intro user hread
    rw [Person.ofJson_serializeMe ⟨rfl, rfl, by decide, rfl, List.forall_mem_nil _⟩] at hread
    cases hread
    exact located_sample _ _ _
  have hrun : Lib.Run (Lib.Guarded Calls fun _ call => LocatedCall call) ∅ [call]
      (execAll [call]) :=
    Lib.Run.nil.snoc ⟨rfl, hlocated⟩
  have hsome : ((execAll [call]).existsKey (key .userMail ['a'])).isSome := by decide
  obtain ⟨entry, hentry⟩ := Option.isSome_iff_exists.mp hsome
  obtain ⟨user, -, hloads⟩ := (loaded_of_run hrun).1 ['a'] entry hentry
  exact ⟨entry, user, hentry, hloads⟩

end TallerII.PersonManager
