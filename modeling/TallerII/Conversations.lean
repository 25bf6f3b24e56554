import TallerII.Layout
import TallerII.Handlers

/-!
# The list of conversations

`getAllConversations` goes over the ids of all users, skips the ids whose stored value is empty,
and keeps those with whom messages were exchanged. The value under an id is the mail of the user,
so a user who registered with an empty mail is in nobody's list: `conversationsExact_iff` says
that the list is exact when no such user exchanged messages with the one who asks, and only then.
-/

namespace TallerII.PersonManager

open Manager MessagesManager

variable {db next : DB} {user other : Long}

/-! ## The ids -/

/-- The entries of the ids that have a value. -/
def idEntries (db : DB) : List (Text × Entry) :=
  ((db.toList.dropWhile (·.1 < Prefix.userUuid.chars)).takeWhile
    (·.1 ≠ Prefix.userMail.chars)).filter fun entry => ! entry.2.isEmpty

/-- The ids of all users are what is behind the prefix of their keys. -/
theorem getAllUsersIds_eq (db : DB) :
    getAllUsersIds db = ((idEntries db).map Prod.fst).mapM fun found =>
      stol (found.drop Prefix.userUuid.chars.length) := by
  rw [List.mapM_map]
  rfl

/-- The stop of the scan lies before its start, so the scan goes on to the last key. -/
theorem visited_ids_eq (db : DB) :
    (db.toList.dropWhile (·.1 < Prefix.userUuid.chars)).takeWhile (·.1 ≠ Prefix.userMail.chars)
      = db.toList.filter fun entry => ! (entry.1 < Prefix.userUuid.chars : Bool) := by
  have hseek := @Lib.Scan.dropWhile_eq_filter _ _ _ db.toList db.sorted_toList
    Prefix.userUuid.chars (fun entry => entry.1 < Prefix.userUuid.chars) fun entry => by simp
  rw [hseek, List.takeWhile_eq_self_iff.mpr]
  intro entry hentry
  have hle := (List.mem_filter.mp hentry).2
  refine decide_eq_true fun heq => ?_
  rw [heq] at hle
  revert hle
  decide

/-- The scan takes the entries from the prefix on and skips the empty ones. -/
theorem idEntries_eq (db : DB) :
    idEntries db
      = (db.toList.filter fun entry => ! (entry.1 < Prefix.userUuid.chars : Bool)).filter
      fun entry => ! entry.2.isEmpty := by
  rw [idEntries, visited_ids_eq]

/-- In a store of ids the scan finds the keys of ids, and no others. -/
theorem mem_idEntries (hlaid : Laid db) (hnumbered : Numbered db) {found : Text} :
    found ∈ (idEntries db).map Prod.fst ↔ ∃ id : Long, found = key .userUuid (toString id) ∧
      ∃ entry, db.existsKey (key .userUuid (toString id)) = some entry ∧
        entry.isEmpty = false := by
  have hmem : ∀ {other : Text} {entry : Entry},
      (other, entry) ∈ db.toList ↔ db.existsKey other = some entry :=
    Std.ExtTreeMap.mem_toList_iff_getElem?_eq_some
  rw [idEntries_eq, List.mem_map]
  simp only [List.mem_filter, Bool.not_eq_true', decide_eq_false_iff_not, not_lt]
  constructor
  · rintro ⟨⟨other, entry⟩, ⟨⟨hentry, hle⟩, hvalue⟩, rfl⟩
    rw [hmem] at hentry
    obtain ⟨family, rest, rfl⟩ := hlaid.family_of_le rfl hentry hle
    obtain rfl := range_userUuid.mp hle
    obtain ⟨id, rfl⟩ := hnumbered rest entry hentry
    exact ⟨id, rfl, entry, hentry, hvalue⟩
  · rintro ⟨id, rfl, entry, hentry, hvalue⟩
    exact ⟨(_, entry), ⟨⟨hmem.mpr hentry, range_userUuid.mpr rfl⟩, hvalue⟩, rfl⟩

/-- The ids that the scan gives, each once: those with a value. -/
theorem getAllUsersIds_spec (hlaid : Laid db) (hnumbered : Numbered db) :
    ∃ ids, getAllUsersIds db = .ok ids ∧ ids.Nodup ∧ ∀ id, id ∈ ids ↔
      ∃ entry, db.existsKey (key .userUuid (toString id)) = some entry ∧
        entry.isEmpty = false := by
  have hback : ∀ id : Long, stol ((key .userUuid (toString id)).drop Prefix.userUuid.chars.length)
      = .ok id := by
    intro id
    rw [key, List.drop_left, stol_toString]
  have hread : ∀ found ∈ (idEntries db).map Prod.fst,
      ∃ id, stol (found.drop Prefix.userUuid.chars.length) = .ok id := by
    intro found hfound
    obtain ⟨id, rfl, -⟩ := (mem_idEntries hlaid hnumbered).mp hfound
    exact ⟨id, hback id⟩
  obtain ⟨ids, hids⟩ := exists_mapM_eq_ok hread
  have hkeys : ids.map (fun id => key .userUuid (toString id)) = (idEntries db).map Prod.fst := by
    refine map_of_mapM_eq_ok ?_ hids
    intro found hfound id hid
    obtain ⟨stored, rfl, -⟩ := (mem_idEntries hlaid hnumbered).mp hfound
    rw [hback] at hid
    rw [Except.ok.inj hid]
  refine ⟨ids, by rw [getAllUsersIds_eq, hids], ?_, ?_⟩
  · have hsub : (idEntries db).Sublist db.toList := by
      rw [idEntries_eq]
      exact List.filter_sublist.trans List.filter_sublist
    have hdistinct : db.toList.Pairwise fun left right => left.1 ≠ right.1 :=
      Std.ExtTreeMap.distinct_keys_toList.imp fun h heq => h (by simp [heq])
    have hnodup : ((idEntries db).map Prod.fst).Nodup :=
      List.pairwise_map.mpr (hdistinct.sublist hsub)
    rw [← hkeys] at hnodup
    exact hnodup.of_map
  · intro id
    rw [mem_of_mapM_eq_ok hids]
    constructor
    · rintro ⟨found, hfound, hid⟩
      obtain ⟨stored, rfl, hentry⟩ := (mem_idEntries hlaid hnumbered).mp hfound
      rw [hback] at hid
      cases hid
      exact hentry
    · intro hentry
      exact ⟨_, (mem_idEntries hlaid hnumbered).mpr ⟨id, rfl, hentry⟩, hback id⟩

/-- In a consistent store the ids that the scan gives are those of the users with a mail. -/
theorem Consistent.value_iff (h : Consistent db) {id : Long} :
    (∃ entry, db.existsKey (key .userUuid (toString id)) = some entry ∧ entry.isEmpty = false) ↔
      ∃ person, getUserById db id = .ok person ∧ person.email ≠ [] := by
  constructor
  · rintro ⟨entry, hentry, hvalue⟩
    obtain ⟨person, rfl, hread, hid⟩ := h.account id entry hentry
    refine ⟨person, h.getUserById_eq_ok.mpr ⟨hentry, hread, hid⟩, ?_⟩
    simpa [Entry.isEmpty] using hvalue
  · rintro ⟨person, hread, hmail⟩
    obtain ⟨hentry, -, -⟩ := h.getUserById_eq_ok.mp hread
    refine ⟨_, hentry, ?_⟩
    simpa [Entry.isEmpty] using hmail

/-! ## The messages exchanged -/

/-- The sender, the receiver and the text of a request. -/
def messageOf (request : Json) : Except Exn (Long × Long × Text) := do
  let fromUserId ← (← request.member "from").asLargestInt
  let toUserId ← (← request.member "to").asLargestInt
  let messageToSave ← (← request.member "message").asString
  return (fromUserId, toUserId, messageToSave)

/-- What a call that returned sent between two users, in either direction. -/
def sentBetween (user other : Long) : Call × Outcome → Option (Long × Long × Text × Text)
  | (.saveMessage now request, .ok _) =>
    match messageOf request with
    | .ok (fromUserId, toUserId, message) =>
      (MessageCall.send now fromUserId toUserId message).sentBetween user other
    | .error _ => none
  | _ => none

/-- Two users exchanged a message. -/
def Exchanged (events : List (Call × Outcome)) (user other : Long) : Prop :=
  ∃ event ∈ events, (sentBetween user other event).isSome

/-- Every conversation reads back as what its two users sent to each other. -/
def Spoken (events : List (Call × Outcome)) (db : DB) : Prop :=
  ∀ user other, ∃ messages, MessagesManager.getMessages db user other = .ok messages ∧
    messages.map Message.content = events.filterMap (sentBetween user other)

/-- A message is read, checked and saved, one after another. -/
theorem saveMessage_eq (db : DB) (now : Text) (request : Json) :
    saveMessage db now request = match (do
        let parts ← messageOf request
        validateUsersOfRequest db parts.1 parts.2.1
        return parts) with
      | .error e => (.error e, db)
      | .ok (fromUserId, toUserId, message) =>
        MessagesManager.saveMessage db now fromUserId toUserId message := by
  have hparts : (do
      let parts ← messageOf request
      validateUsersOfRequest db parts.1 parts.2.1
      return parts) = (do
      let fromUserId ← (← request.member "from").asLargestInt
      let toUserId ← (← request.member "to").asLargestInt
      let messageToSave ← (← request.member "message").asString
      validateUsersOfRequest db fromUserId toUserId
      return (fromUserId, toUserId, messageToSave)) := by
    simp only [messageOf, bind_assoc, pure_bind]
  rw [hparts]
  rfl

/-- A call that returned a saved message did what its request says, and one that threw did
nothing. -/
theorem saveMessage_cases (db : DB) (now : Text) (request : Json) :
    (∃ e, saveMessage db now request = (.error e, db)) ∨
      ∃ fromUserId toUserId message saved,
        messageOf request = .ok (fromUserId, toUserId, message) ∧
          saveMessage db now request
            = (.ok saved, (MessageCall.send now fromUserId toUserId message).run db) := by
  rw [saveMessage_eq]
  cases hmessage : messageOf request with
  | error e => exact .inl ⟨e, rfl⟩
  | ok parts =>
      obtain ⟨fromUserId, toUserId, message⟩ := parts
      cases hvalid : validateUsersOfRequest db fromUserId toUserId with
      | error e =>
          refine .inl ⟨e, ?_⟩
          simp [hvalid]
      | ok _ =>
          simp only [ok_bind, hvalid]
          show (∃ e, MessagesManager.saveMessage db now fromUserId toUserId message = _) ∨
            ∃ _ _ _ saved, _ ∧ MessagesManager.saveMessage db now fromUserId toUserId message = _
          cases hcurrent : MessagesManager.getMessages db fromUserId toUserId with
          | error e =>
              refine .inl ⟨e, ?_⟩
              rw [MessagesManager.saveMessage, hcurrent]
          | ok current =>
              obtain ⟨saved, hsaved⟩ : ∃ saved,
                  (MessagesManager.saveMessage db now fromUserId toUserId message).1
                    = .ok saved := by
                rw [MessagesManager.saveMessage, hcurrent]
                exact ⟨_, rfl⟩
              exact .inr ⟨fromUserId, toUserId, message, saved, rfl, Prod.ext hsaved rfl⟩

/-- The messages of two users stay when their key does. -/
theorem getMessages_congr
    (h : next.existsKey (getKey user other) = db.existsKey (getKey user other)) :
    MessagesManager.getMessages next user other = MessagesManager.getMessages db user other := by
  rw [MessagesManager.getMessages, MessagesManager.getMessages, h]

/-- The keys of conversations belong to `MessagesManager` alone. -/
theorem apart_getKey (user other : Long) : Apart (getKey user other) := by
  refine ⟨⟨?_, ?_, ?_⟩, ?_, ?_, ?_, ?_⟩ <;> simp [userNameKey]

/-- A call adds to every conversation what it sent between its two users. -/
theorem Spoken.exec {events : List (Call × Outcome)} (h : Spoken events db) (call : Call) :
    Spoken (events ++ [(call, (exec db call).1)]) (exec db call).2 := by
  have hread : ∀ user other, ∃ messages,
      MessagesManager.getMessages db user other = .ok messages := by
    intro user other
    obtain ⟨messages, hmessages, -⟩ := h user other
    exact ⟨messages, hmessages⟩
  -- what is left to show of one call: what it adds is what it sent
  suffices hadds : ∀ user other messages, MessagesManager.getMessages db user other
      = .ok messages →
      ∃ after, MessagesManager.getMessages (PersonManager.exec db call).2 user other = .ok after ∧
        after.map Message.content = messages.map Message.content
          ++ (sentBetween user other (call, (PersonManager.exec db call).1)).toList by
    intro user other
    obtain ⟨messages, hmessages, hcontents⟩ := h user other
    obtain ⟨after, hafter, hsent⟩ := hadds user other messages hmessages
    refine ⟨after, hafter, ?_⟩
    rw [hsent, hcontents, List.filterMap_append]
    cases hevent : sentBetween user other (call, (PersonManager.exec db call).1) <;> simp [hevent]
  intro user other messages hmessages
  have hkept : (PersonManager.exec db call).2.existsKey (getKey user other)
      = db.existsKey (getKey user other) →
      sentBetween user other (call, (PersonManager.exec db call).1) = none →
      ∃ after, MessagesManager.getMessages (PersonManager.exec db call).2 user other = .ok after ∧
        after.map Message.content = messages.map Message.content
          ++ (sentBetween user other (call, (PersonManager.exec db call).1)).toList := by
    intro hsame hnone
    refine ⟨messages, by rw [getMessages_congr hsame, hmessages], ?_⟩
    rw [hnone, Option.toList_none, List.append_nil]
  cases call with
  | savePerson juser forceID => exact hkept (existsKey_savePerson (apart_getKey _ _) _ _) rfl
  | updateUser juser => exact hkept (existsKey_updateUser (apart_getKey _ _) _) rfl
  | deletePerson id => exact hkept (existsKey_deletePerson (apart_getKey _ _) _) rfl
  | saveOrUpdateRelation relation =>
      exact hkept (existsKey_saveOrUpdateRelation (by simp) relation) rfl
  | saveRecommendation recommendation =>
      exact hkept (existsKey_saveRecommendation (by simp) (by simp) recommendation) rfl
  | removeRecommendation fromUserId toUserId =>
      exact hkept (existsKey_removeRecommendation (by simp) (by simp) fromUserId toUserId) rfl
  | setOrUpdateNotificationToken request userId =>
      exact hkept (existsKey_setOrUpdateNotificationToken (by simp) request userId) rfl
  | setMessagesAsReceived fromUserId toUserId deliveredMessages =>
      exact getMessages_run (.deliver fromUserId toUserId deliveredMessages) hread hmessages
  | saveMessage now request =>
      rcases saveMessage_cases db now request with
        ⟨e, hthrown⟩ | ⟨fromUserId, toUserId, message, saved, hmessage, hsaved⟩
      · refine hkept ?_ ?_
        · show (saveMessage db now request).2.existsKey _ = _
          rw [hthrown]
        · rw [PersonManager.exec, hthrown]
          rfl
      · rw [PersonManager.exec, hsaved]
        simp only [outcome, Except.map, sentBetween, hmessage]
        exact getMessages_run (.send now fromUserId toUserId message) hread hmessages

/-- Along every run the conversations are those of the messages that were sent. -/
theorem spoken_of_run {events : List (Call × Outcome)} (h : Lib.Run Answers ∅ events db) :
    Spoken events db := by
  refine h.history ?_ ?_
  · intro user other
    exact ⟨[], by rw [MessagesManager.getMessages, DB.existsKey_empty], rfl⟩
  · rintro before state ⟨call, result⟩ after hbefore hstep
    have hspoken := hbefore.exec call
    rw [show PersonManager.exec state call = (result, after) from hstep] at hspoken
    exact hspoken

/-- A run with its answers leads to reachable stores. -/
theorem reachable_of_answers {events : List (Call × Outcome)} (h : Lib.Run Answers ∅ events db) :
    Reachable db := by
  induction h with
  | nil => exact ⟨[], .nil⟩
  | @snoc _ state after event _ hlast ih =>
      obtain ⟨calls, hrun⟩ := ih
      have hstep : Calls state event.1 after := by rw [Calls, hlast]
      exact ⟨_, hrun.snoc hstep⟩

/-- What a call sent between two users is from one of them to the other. -/
theorem pair_of_sentBetween {event : Call × Outcome} {fromUserId toUserId : Long}
    {message now : Text}
    (h : sentBetween user other event = some (fromUserId, toUserId, message, now)) :
    fromUserId = user ∧ toUserId = other ∨ fromUserId = other ∧ toUserId = user := by
  unfold sentBetween at h
  split at h
  · split at h
    · simp only [MessageCall.sentBetween] at h
      split at h
      · cases h
        assumption
      · cases h
    · cases h
  · cases h

/-- There are messages to read once some were exchanged. -/
theorem ne_nil_iff_exchanged {events : List (Call × Outcome)} {messages : List Message}
    (h : messages.map Message.content = events.filterMap (sentBetween user other)) :
    messages ≠ [] ↔ Exchanged events user other := by
  have hnil : messages = [] ↔ ∀ event ∈ events, sentBetween user other event = none := by
    rw [← List.map_eq_nil_iff, h, List.filterMap_eq_nil_iff]
  rw [ne_eq, hnil, Exchanged]
  simp [Option.isSome_iff_ne_none]

/-- The messages that `getUnreadCount` counts are those from the other user. -/
theorem getUnreadCount_eq {events : List (Call × Outcome)} {messages : List Message}
    (hmessages : MessagesManager.getMessages db user other = .ok messages)
    (hcontents : messages.map Message.content = events.filterMap (sentBetween user other)) :
    getUnreadCount db user other = .ok (messages.countP fun message =>
      message.fromUserId = other ∧ message.toUserId = user ∧ message.state = stateSent) := by
  refine getUnreadCount_of_pairs hmessages fun message hmessage => ?_
  -- a message of the conversation was sent by one of the two to the other
  have hcontent : message.content ∈ events.filterMap (sentBetween user other) := by
    rw [← hcontents]
    exact List.mem_map_of_mem hmessage
  obtain ⟨event, -, hsent⟩ := List.mem_filterMap.mp hcontent
  exact pair_of_sentBetween hsent

/-! ## The list -/

/-- The conversation that the loop adds for an id, with the user's name and the unread messages.
-/
theorem conversationWith_eq_some {conversation : Conversation} :
    conversationWith db user other = .ok (some conversation) ↔ other ≠ user ∧
      ∃ messages person unreadCount, MessagesManager.getMessages db user other = .ok messages ∧
        messages ≠ [] ∧ getUserById db other = .ok person ∧
        getUnreadCount db user other = .ok unreadCount ∧
        conversation = {
          withUser := other, firstName := person.firstName, lastName := person.lastName
          unreadCount } := by
  unfold conversationWith
  by_cases hsame : user = other
  · simp [hsame]
  · rw [if_neg hsame]
    cases hmessages : MessagesManager.getMessages db user other with
    | error e => simp
    | ok messages =>
        by_cases hnil : messages = []
        · rw [ok_bind, if_pos hnil]
          simp [hnil, pure, Except.pure]
        · cases hperson : getUserById db other with
          | error e => simp [hnil]
          | ok person =>
              cases hunread : getUnreadCount db user other with
              | error e => simp [hnil]
              | ok unreadCount => simp [hnil, Ne.symm hsame, eq_comm]

/-- What the list of conversations of a user should be: each existing user with whom messages were
exchanged once, with the number of messages that are still unread, and their sum in the response.
-/
structure ListsConversations (events : List (Call × Outcome)) (db : DB) (user : Long)
    (conversations : List Conversation) : Prop where
  once : (conversations.map Conversation.withUser).Nodup
  complete : ∀ other, other ∈ conversations.map Conversation.withUser ↔
    other ≠ user ∧ userExists db other ∧ Exchanged events user other
  unread : ∀ conversation ∈ conversations, ∃ messages,
    MessagesManager.getMessages db user conversation.withUser = .ok messages ∧
      conversation.unreadCount = messages.countP fun message =>
        message.fromUserId = conversation.withUser ∧ message.toUserId = user ∧
          message.state = stateSent
  total : ∃ metadata,
    (ConversationsHandler.buildJsonResponse conversations).member "metadata" = .ok metadata ∧
      metadata.member "total_unread_count"
        = .ok (.int (conversations.map Conversation.unreadCount).sum)

/-- `getAllConversations` returns the list that it should. -/
def ConversationsExact (events : List (Call × Outcome)) (db : DB) (user : Long) : Prop :=
  ∃ conversations, getAllConversations db user = .ok conversations ∧
    ListsConversations events db user conversations

/-- Asking for the conversation with an existing user returns. -/
theorem conversationWith_returns {events : List (Call × Outcome)} (hspoken : Spoken events db)
    {user other : Long} {person : Person} (hperson : getUserById db other = .ok person) :
    ∃ result, conversationWith db user other = .ok result := by
  obtain ⟨messages, hmessages, hcontents⟩ := hspoken user other
  unfold conversationWith
  split
  · exact ⟨none, rfl⟩
  · rename_i hne
    rw [hmessages, ok_bind]
    split
    · exact ⟨none, rfl⟩
    · rw [hperson, ok_bind, getUnreadCount_eq hmessages hcontents]
      exact ⟨_, rfl⟩

/-- A conversation that is returned is the one with the user who was asked about. -/
theorem withUser_of_conversationWith {conversation : Conversation}
    (hfound : conversationWith db user other = .ok (some conversation)) :
    conversation.withUser = other := by
  obtain ⟨-, messages, person, unreadCount, -, -, -, -, rfl⟩ := conversationWith_eq_some.mp hfound
  rfl

/-- There is a conversation with another user who exists and with whom messages were exchanged. -/
theorem exists_conversationWith_iff {events : List (Call × Outcome)} (hspoken : Spoken events db)
    (user other : Long) :
    (∃ conversation, conversationWith db user other = .ok (some conversation)) ↔
      other ≠ user ∧ Exchanged events user other ∧
        ∃ person, getUserById db other = .ok person := by
  obtain ⟨messages, hmessages, hcontents⟩ := hspoken user other
  constructor
  · rintro ⟨conversation, hfound⟩
    obtain ⟨hne, current, person, -, hcurrent, hnonempty, hperson, -⟩ :=
      conversationWith_eq_some.mp hfound
    obtain rfl : messages = current := Except.ok.inj (hmessages.symm.trans hcurrent)
    exact ⟨hne, (ne_nil_iff_exchanged hcontents).mp hnonempty, person, hperson⟩
  · rintro ⟨hne, hexchanged, person, hperson⟩
    exact ⟨_, conversationWith_eq_some.mpr ⟨hne, messages, person, _, hmessages,
      (ne_nil_iff_exchanged hcontents).mpr hexchanged, hperson,
      getUnreadCount_eq hmessages hcontents, rfl⟩⟩

/-- A conversation has the number of messages that its other user sent and that are not received.
-/
theorem unreadCount_of_conversationWith {events : List (Call × Outcome)}
    (hspoken : Spoken events db) {conversation : Conversation}
    (hfound : conversationWith db user other = .ok (some conversation)) :
    ∃ messages, MessagesManager.getMessages db user conversation.withUser = .ok messages ∧
      conversation.unreadCount = messages.countP fun message =>
        message.fromUserId = conversation.withUser ∧ message.toUserId = user ∧
          message.state = stateSent := by
  obtain ⟨-, -, person, unreadCount, -, -, -, hunread, rfl⟩ := conversationWith_eq_some.mp hfound
  obtain ⟨messages, hmessages, hcontents⟩ := hspoken user other
  rw [getUnreadCount_eq hmessages hcontents] at hunread
  exact ⟨messages, hmessages, (Except.ok.inj hunread).symm⟩

/-- What `getAllConversations` returns in a store that calls led to: the users that have a mail
and exchanged messages with the one who asks. -/
theorem getAllConversations_spec {events : List (Call × Outcome)}
    (h : Lib.Run Answers ∅ events db) (user : Long) :
    ∃ conversations, getAllConversations db user = .ok conversations ∧
      (conversations.map Conversation.withUser).Nodup ∧
      (∀ other, other ∈ conversations.map Conversation.withUser ↔
        other ≠ user ∧ Exchanged events user other ∧
          ∃ person, getUserById db other = .ok person ∧ person.email ≠ []) ∧
      ∀ conversation ∈ conversations, ∃ messages,
        MessagesManager.getMessages db user conversation.withUser = .ok messages ∧
          conversation.unreadCount = messages.countP fun message =>
            message.fromUserId = conversation.withUser ∧ message.toUserId = user ∧
              message.state = stateSent := by
  have hreachable := reachable_of_answers h
  have hspoken := spoken_of_run h
  obtain ⟨ids, hids, hnodup, hmem⟩ := getAllUsersIds_spec hreachable.laid hreachable.numbered
  simp only [hreachable.consistent.value_iff] at hmem
  have hread : ∀ other ∈ ids, ∃ result, conversationWith db user other = .ok result := by
    intro other hother
    obtain ⟨person, hperson, -⟩ := (hmem other).mp hother
    exact conversationWith_returns hspoken hperson
  obtain ⟨results, hresults⟩ := exists_mapM_eq_ok hread
  -- the empty results are dropped, and each of the others is the one of its user
  have hkept : ∀ conversation, conversation ∈ results.filterMap id ↔
      ∃ other ∈ ids, conversationWith db user other = .ok (some conversation) := by
    intro conversation
    rw [List.mem_filterMap, ← mem_of_mapM_eq_ok hresults]
    simp
  refine ⟨results.filterMap id, ?_, ?_, ?_, ?_⟩
  · rw [getAllConversations, hids, ok_bind, hresults]
    rfl
  · exact hnodup.sublist (sublist_of_mapM (fun _ _ _ => withUser_of_conversationWith) hresults)
  · intro other
    constructor
    · intro hother
      obtain ⟨conversation, hconversation, rfl⟩ := List.mem_map.mp hother
      obtain ⟨other, hid, hfound⟩ := (hkept conversation).mp hconversation
      obtain rfl := withUser_of_conversationWith hfound
      obtain ⟨hne, hexchanged, -⟩ := (exists_conversationWith_iff hspoken _ _).mp ⟨_, hfound⟩
      exact ⟨hne, hexchanged, (hmem _).mp hid⟩
    · rintro ⟨hne, hexchanged, person, hperson, hmail⟩
      obtain ⟨conversation, hfound⟩ :=
        (exists_conversationWith_iff hspoken user other).mpr ⟨hne, hexchanged, person, hperson⟩
      have hid := (hmem other).mpr ⟨person, hperson, hmail⟩
      exact List.mem_map.mpr
        ⟨conversation, (hkept _).mpr ⟨other, hid, hfound⟩, withUser_of_conversationWith hfound⟩
  · intro conversation hconversation
    obtain ⟨other, -, hfound⟩ := (hkept conversation).mp hconversation
    exact unreadCount_of_conversationWith hspoken hfound

/-- The response carries the sum of the unread messages. -/
theorem buildJsonResponse_total (conversations : List Conversation) : ∃ metadata,
    (ConversationsHandler.buildJsonResponse conversations).member "metadata" = .ok metadata ∧
      metadata.member "total_unread_count"
        = .ok (.int (conversations.map Conversation.unreadCount).sum) := by
  refine ⟨Json.ofMembers [("total_count", .int conversations.length),
    ("total_unread_count", .int (conversations.map Conversation.unreadCount).sum)], ?_, ?_⟩
  · simp [ConversationsHandler.buildJsonResponse, Json.assigned, Json.assigned_appendedMember]
  · simp [Json.assigned]

/-- After any calls, the list of conversations of a user is exact precisely when every other user
with whom messages were exchanged has a mail that is not empty. -/
theorem conversationsExact_iff {events : List (Call × Outcome)} (h : Lib.Run Answers ∅ events db)
    (user : Long) :
    ConversationsExact events db user ↔
      ∀ other person, other ≠ user → getUserById db other = .ok person →
        Exchanged events user other → person.email ≠ [] := by
  have hconsistent := (reachable_of_answers h).consistent
  obtain ⟨conversations, hconversations, hnodup, hmem, hunread⟩ := getAllConversations_spec h user
  constructor
  · rintro ⟨listed, hlisted, hexact⟩ other person hne hperson hexchanged
    obtain rfl : conversations = listed := Except.ok.inj (hconversations.symm.trans hlisted)
    have hexists : userExists db other := by
      obtain ⟨hentry, -, -⟩ := hconsistent.getUserById_eq_ok.mp hperson
      rw [userExists, hentry]
      rfl
    obtain ⟨-, -, stored, hstored, hmail⟩ :=
      (hmem other).mp ((hexact.complete other).mpr ⟨hne, hexists, hexchanged⟩)
    rw [hperson] at hstored
    cases hstored
    exact hmail
  · intro hmails
    refine ⟨conversations, hconversations, ?_⟩
    refine { once := hnodup, complete := ?_, unread := hunread, total := ?_ }
    · intro other
      rw [hmem]
      constructor
      · rintro ⟨hne, hexchanged, person, hperson, -⟩
        obtain ⟨hentry, -, -⟩ := hconsistent.getUserById_eq_ok.mp hperson
        refine ⟨hne, ?_, hexchanged⟩
        rw [userExists, hentry]
        rfl
      · rintro ⟨hne, hexists, hexchanged⟩
        obtain ⟨person, hperson⟩ := hconsistent.getUserById_of_userExists hexists
        exact ⟨hne, hexchanged, person, hperson, hmails other person hne hperson hexchanged⟩
    · exact buildJsonResponse_total conversations

/-- Two users register, the second one without a mail, and the second writes to the first. -/
def callsWithoutMail : List Call :=
  [.savePerson (Person.sample ['a'] [] []).serializeMe (-1),
    .savePerson (Person.sample [] [] []).serializeMe (-1),
    .saveMessage ['t'] (Json.ofMembers
      [("from", .ofLong 2), ("to", .ofLong 1), ("message", .string ['x'])])]

/-- The message of a user without a mail is in no list of conversations. -/
theorem conversation_without_mail :
    Lib.Run Answers ∅ (answersFrom ∅ callsWithoutMail) (execAll callsWithoutMail) ∧
      userExists (execAll callsWithoutMail) 1 = true ∧
      Exchanged (answersFrom ∅ callsWithoutMail) 1 2 ∧
      getAllConversations (execAll callsWithoutMail) 1 = .ok [] ∧
      ¬ ConversationsExact (answersFrom ∅ callsWithoutMail) (execAll callsWithoutMail) 1 := by
  have hexchanged : Exchanged (answersFrom ∅ callsWithoutMail) 1 2 := by
    unfold Exchanged
    decide
  have hnone : getAllConversations (execAll callsWithoutMail) 1 = .ok [] := by decide
  have hexists : userExists (execAll callsWithoutMail) 2 = true := by decide
  refine ⟨run_answersFrom _, by decide, hexchanged, hnone, ?_⟩
  rintro ⟨conversations, hlisted, hexact⟩
  rw [hnone] at hlisted
  cases hlisted
  have hmissing := (hexact.complete 2).mpr ⟨by decide, hexists, hexchanged⟩
  simp at hmissing

/-- The user without a mail has a list that is exact. -/
theorem conversationsExact_writer :
    ConversationsExact (answersFrom ∅ callsWithoutMail) (execAll callsWithoutMail) 2 := by
  refine (conversationsExact_iff (run_answersFrom callsWithoutMail) 2).mpr ?_
  intro other person hne hperson _ hmail
  have hconsistent := (reachable_execAll callsWithoutMail).consistent
  obtain ⟨-, hread, hid⟩ := hconsistent.getUserById_eq_ok.mp hperson
  have hstored : (getUserByMail (execAll callsWithoutMail) []).map Person.id = .ok 2 := by decide
  rw [← hmail, hread] at hstored
  exact hne (hid.symm.trans (Except.ok.inj hstored))

end TallerII.PersonManager
