import TallerII.Conversations

/-!
# Unread messages

A message is sent once and received at most once: every call of a run leaves the messages where
they are, appends at most one that is sent, and marks a message as received only when it delivers
it to its receiver. `forward_of_run` says so of every run, with what `getUnreadCount` returns
along it. Nobody writes to himself: `PersonManager` refuses such a request.
-/

namespace TallerII.MessagesManager

open Lib

variable {db next : DB} {user other : Long} {messages : List Message}

/-! ## What a call may do -/

/-- A call leaves a message as it is, or delivers it to its receiver, who has not received it. -/
def Moves (call : MessageCall) (before after : Message) : Prop :=
  after = before ∨ before.state = stateSent ∧ after = { before with state := stateReceived } ∧
    ∃ deliveredMessages, deliveredMessages ≠ [] ∧
      call = .deliver before.toUserId before.fromUserId deliveredMessages

/-- A later state of a message: what it says is the same, and it is still received if it was. -/
structure Later (before after : Message) : Prop where
  content : after.content = before.content
  received : before.state = stateReceived → after.state = stateReceived

/-- A message from a user to another one that has not been received. -/
def IsUnread (fromUserId toUserId : Long) (message : Message) : Prop :=
  message.fromUserId = fromUserId ∧ message.toUserId = toUserId ∧ message.state = stateSent

/-- Whether a message is unread can be computed. -/
instance (fromUserId toUserId : Long) (message : Message) :
    Decidable (IsUnread fromUserId toUserId message) :=
  inferInstanceAs (Decidable (_ ∧ _))

/-- A conversation has messages of its two users, sent or received. -/
def Kept (user other : Long) (messages : List Message) : Prop :=
  ∀ message ∈ messages, (message.state = stateSent ∨ message.state = stateReceived) ∧
    (message.fromUserId = user ∧ message.toUserId = other ∨
      message.fromUserId = other ∧ message.toUserId = user)

/-- Every conversation can be read and is kept. -/
def Readable (db : DB) : Prop :=
  ∀ user other, ∃ messages, getMessages db user other = .ok messages ∧ Kept user other messages

/-! ## One call -/

/-- A delivery moves each message of the conversation of the reader and the writer. -/
theorem moves_markReceived {reader writer : Long} {deliveredMessages : List Message}
    (h : Kept reader writer messages) {message : Message} (hmessage : message ∈ messages) :
    Moves (.deliver reader writer deliveredMessages) message
      (markReceived reader deliveredMessages message) := by
  obtain ⟨hstate, hpair⟩ := h message hmessage
  rw [markReceived_eq]
  split
  · rename_i hdelivered
    obtain ⟨hsome, hto⟩ := hdelivered
    have hfrom : message.fromUserId = writer := by
      rcases hpair with ⟨hfrom, hwriter⟩ | ⟨hfrom, -⟩
      · rw [hfrom, hto, hwriter]
      · exact hfrom
    rcases hstate with hsent | hreceived
    · exact .inr ⟨hsent, rfl, deliveredMessages, hsome, by rw [← hto, hfrom]⟩
    · exact .inl (by rw [← hreceived])
  · exact .inl rfl

/-- A message only moves forward. -/
theorem Moves.later {call : MessageCall} {before after : Message} (h : Moves call before after) :
    Later before after := by
  rcases h with rfl | ⟨-, rfl, -⟩
  · exact ⟨rfl, id⟩
  · exact ⟨rfl, fun _ => rfl⟩

/-- A message stays in its conversation. -/
theorem Moves.kept {call : MessageCall} {before after : Message} (h : Moves call before after)
    (hbefore : Kept user other [before]) : Kept user other [after] := by
  rcases h with rfl | ⟨-, rfl, -⟩
  · exact hbefore
  · intro message hmessage
    rw [List.mem_singleton.mp hmessage]
    exact ⟨.inr rfl, (hbefore before List.mem_cons_self).2⟩

/-- What a call makes of a conversation: each message moves, and at most one is appended, as sent.
-/
theorem getMessages_run_moves (h : Readable db) (call : MessageCall)
    (hmessages : getMessages db user other = .ok messages) :
    ∃ moved created, getMessages (call.run db) user other = .ok (moved ++ created) ∧
      List.Forall₂ (Moves call) messages moved ∧ created.length ≤ 1 ∧
      (∀ message ∈ created, message.state = stateSent) ∧ Kept user other created := by
  have hsame : List.Forall₂ (Moves call) messages messages :=
    List.forall₂_same.mpr fun message _ => .inl rfl
  cases call with
  | send now fromUserId toUserId text =>
      obtain ⟨current, hcurrent, -⟩ := h fromUserId toUserId
      simp only [MessageCall.run, saveMessage, hcurrent, getMessages_saveConversation, getKey_inj]
      split
      · rename_i hpair
        rw [getMessages_of_pair hpair, hmessages] at hcurrent
        obtain rfl := Except.ok.inj hcurrent
        refine ⟨messages, _, rfl, hsame, Nat.le_refl _, ?_, ?_⟩
        · intro message hmessage
          rw [List.mem_singleton.mp hmessage]
        · intro message hmessage
          rw [List.mem_singleton.mp hmessage]
          exact ⟨.inl rfl, hpair⟩
      · -- the conversation of another pair is stored under another key
        refine ⟨messages, [], ?_, hsame, Nat.zero_le _, by simp, fun message hmem => ?_⟩
        · rw [List.append_nil, hmessages]
        · cases hmem
  | deliver fromUserId toUserId deliveredMessages =>
      obtain ⟨current, hcurrent, hkept⟩ := h fromUserId toUserId
      simp only [MessageCall.run, setMessagesAsReceived, hcurrent, getMessages_saveConversation,
        getKey_inj]
      split
      · rename_i hpair
        rw [getMessages_of_pair hpair, hmessages] at hcurrent
        obtain rfl := Except.ok.inj hcurrent
        refine ⟨_, [],
          by rw [List.append_nil], ?_, Nat.zero_le _, by simp, fun message hmem => ?_⟩
        · rw [List.forall₂_map_right_iff, List.forall₂_same]
          -- the call rewrites each message in its place
          exact fun message hmessage => moves_markReceived hkept hmessage
        · cases hmem
      · refine ⟨messages, [], ?_, hsame, Nat.zero_le _, by simp, fun message hmem => ?_⟩
        · rw [List.append_nil, hmessages]
        · cases hmem

/-- Every conversation is empty. -/
theorem readable_empty : Readable ∅ := by
  intro user other
  refine ⟨[], ?_, fun message hmessage => by cases hmessage⟩
  rw [getMessages, DB.existsKey_empty]

/-- A call keeps every conversation. -/
theorem Readable.step {call : MessageCall} (h : Readable db) (hstep : Messaging db call next) :
    Readable next := by
  obtain rfl := hstep
  intro user other
  obtain ⟨messages, hmessages, hkept⟩ := h user other
  obtain ⟨moved, created, hafter, hmoves, -, -, hcreated⟩ :=
    getMessages_run_moves h call hmessages
  refine ⟨_, hafter, fun message hmessage => ?_⟩
  rcases List.mem_append.mp hmessage with hmoved | hnew
  · obtain ⟨position, hlt, rfl⟩ := List.getElem_of_mem hmoved
    have hlt' : position < messages.length := by
      rw [hmoves.length_eq]
      exact hlt
    have hmove := hmoves.get hlt' hlt
    have hbefore : Kept user other [messages[position]] := by
      intro message hmem
      rw [List.mem_singleton.mp hmem]
      exact hkept _ (List.getElem_mem hlt')
    exact hmove.kept hbefore _ List.mem_cons_self
  · exact hcreated message hnew

/-! ## Runs -/

/-- Along every run the conversations can be read. -/
theorem readable_of_run {calls : List MessageCall} (h : Run Messaging ∅ calls db) : Readable db :=
  h.invariant readable_empty fun _ _ _ hreadable hstep => hreadable.step hstep

/-- A conversation later on: the same messages in a later state, and then others. -/
def Grows (before after : List Message) : Prop :=
  ∃ moved created, after = moved ++ created ∧ List.Forall₂ Later before moved

/-- Two moves forward are one. -/
theorem Later.trans {first second third : Message} (h : Later first second)
    (h' : Later second third) : Later first third :=
  ⟨h'.content.trans h.content, h'.received ∘ h.received⟩

/-- The same of all messages of a conversation. -/
theorem forall₂_later_trans {first second third : List Message}
    (h : List.Forall₂ Later first second)
    (h' : List.Forall₂ Later second third) : List.Forall₂ Later first third := by
  induction h generalizing third with
  | nil =>
      cases h'
      exact .nil
  | cons hhead _ ih =>
      obtain ⟨_, _, hhead', htail', rfl⟩ := List.forall₂_cons_left_iff.mp h'
      exact .cons (hhead.trans hhead') (ih htail')

/-- A conversation may stay as it is. -/
theorem Grows.refl (messages : List Message) : Grows messages messages :=
  ⟨messages, [], (List.append_nil _).symm, List.forall₂_same.mpr fun _ _ => ⟨rfl, id⟩⟩

/-- A call makes a conversation grow. -/
theorem Grows.step {before : List Message} {call : MessageCall} (h : Grows before messages)
    (hreadable : Readable db) (hmessages : getMessages db user other = .ok messages) :
    ∃ after, getMessages (call.run db) user other = .ok after ∧ Grows before after := by
  obtain ⟨old, more, rfl, hlater⟩ := h
  obtain ⟨moved, created, hafter, hmoves, -⟩ := getMessages_run_moves hreadable call hmessages
  refine ⟨_, hafter, moved.take old.length, moved.drop old.length ++ created, ?_, ?_⟩
  · rw [← List.append_assoc, List.take_append_drop]
  · have hfirst := List.forall₂_take old.length hmoves
    rw [List.take_left] at hfirst
    exact forall₂_later_trans hlater (hfirst.imp fun _ _ => Moves.later)

/-- A conversation only grows from any point of a run on. -/
theorem grows_of_run {calls : List MessageCall} {later : DB} (hreadable : Readable db)
    (hmessages : getMessages db user other = .ok messages) (h : Run Messaging db calls later) :
    ∃ after, getMessages later user other = .ok after ∧ Grows messages after := by
  refine (@Run.invariant _ _ Messaging db later calls
    (fun state => Readable state ∧
      ∃ after, getMessages state user other = .ok after ∧ Grows messages after)
    ⟨hreadable, messages, hmessages, Grows.refl messages⟩ ?_ h).2
  rintro state call next ⟨hstate, after, hafter, hgrows⟩ hstep
  refine ⟨hstate.step hstep, ?_⟩
  obtain rfl := hstep
  exact hgrows.step hstate hafter

/-! ## What is counted -/

/-- The messages that are counted are those from the other user that have not been received. -/
theorem getUnreadCount_of_kept (hmessages : getMessages db user other = .ok messages)
    (h : Kept user other messages) :
    getUnreadCount db user other = .ok (messages.countP (IsUnread other user)) :=
  getUnreadCount_of_pairs hmessages fun message hmessage => (h message hmessage).2

/-- The calls that `PersonManager` lets through: `validateUsersOfRequest` refuses a message to
oneself. -/
def MessageCall.Validated : MessageCall → Prop
  | send _ fromUserId toUserId _ => fromUserId ≠ toUserId
  | deliver _ _ _ => True

/-- `PersonManager::saveMessage` throws and changes nothing, or it is a send that is let through.
-/
theorem validated_of_saveMessage (db : DB) (now : Text) (request : Json) :
    (∃ e, PersonManager.saveMessage db now request = (.error e, db)) ∨
      ∃ call : MessageCall, call.Validated ∧
        (PersonManager.saveMessage db now request).2 = call.run db := by
  rw [PersonManager.saveMessage_eq]
  cases hmessage : PersonManager.messageOf request with
  | error e => exact .inl ⟨e, rfl⟩
  | ok parts =>
      obtain ⟨fromUserId, toUserId, message⟩ := parts
      cases hvalid : PersonManager.validateUsersOfRequest db fromUserId toUserId with
      | error e =>
          refine .inl ⟨e, ?_⟩
          simp [hvalid]
      | ok _ =>
          have hne := (PersonManager.validateUsersOfRequest_eq_ok.mp hvalid).2.2
          refine .inr ⟨.send now fromUserId toUserId message, hne, ?_⟩
          simp only [ok_bind, hvalid]
          rfl

/-- Sending to another user does not change the count of the sender. -/
theorem getUnreadCount_send (h : Readable db) {now text : Text}
    (hvalidated : (MessageCall.send now user other text).Validated) :
    getUnreadCount ((MessageCall.send now user other text).run db) user other
      = getUnreadCount db user other := by
  have hne : user ≠ other := hvalidated
  obtain ⟨messages, hmessages, -⟩ := h user other
  simp only [getUnreadCount, MessageCall.run, saveMessage, hmessages,
    getMessages_saveConversation,
    if_pos, ok_bind, List.countP_append]
  simp [hne]

/-! ## Forward -/

/-- Along every run, each call leaves the messages of two users in place, appends at most one, as
sent, and moves a message from sent to received only when it delivers it to its receiver; from
there on it stays received. What is counted for a user is the number of messages from the other
one that have not been received, and what the user sends to the other one does not change it. -/
theorem forward_of_run {calls : List MessageCall} (h : Run Messaging ∅ calls db)
    (user other : Long) :
    ∃ messages, getMessages db user other = .ok messages ∧
      (∀ call : MessageCall, ∃ moved created,
        getMessages (call.run db) user other = .ok (moved ++ created) ∧
        List.Forall₂ (Moves call) messages moved ∧ created.length ≤ 1 ∧
        ∀ message ∈ created, message.state = stateSent) ∧
      (∀ more later, Run Messaging db more later → ∃ after,
        getMessages later user other = .ok after ∧ Grows messages after) ∧
      getUnreadCount db user other = .ok (messages.countP (IsUnread other user)) ∧
      ∀ now text, (MessageCall.send now user other text).Validated →
        getUnreadCount ((MessageCall.send now user other text).run db) user other
          = getUnreadCount db user other := by
  have hreadable := readable_of_run h
  obtain ⟨messages, hmessages, hkept⟩ := hreadable user other
  refine ⟨messages, hmessages, ?_, ?_, getUnreadCount_of_kept hmessages hkept, ?_⟩
  · intro call
    obtain ⟨moved, created, hafter, hmoves, hone, hsent, -⟩ :=
      getMessages_run_moves hreadable call hmessages
    exact ⟨moved, created, hafter, hmoves, hone, hsent⟩
  · exact fun more later hrun => grows_of_run hreadable hmessages hrun
  · exact fun now text hvalidated => getUnreadCount_send hreadable hvalidated

/-- Two users write to each other. -/
def greeted : DB :=
  (MessageCall.send "10:05".toList 2 1 "que tal".toList).run
    ((MessageCall.send "10:00".toList 1 2 "hola".toList).run ∅)

/-- The second user reads them: only the message to this user moves, and an answer changes none of
the counts. -/
theorem forward_of_delivery :
    ∃ messages moved created, getMessages greeted 2 1 = .ok messages ∧
      getUnreadCount greeted 2 1 = .ok (messages.countP (IsUnread 1 2)) ∧
      getMessages ((MessageCall.deliver 2 1 messages).run greeted) 2 1 = .ok (moved ++ created) ∧
      List.Forall₂ (Moves (.deliver 2 1 messages)) messages moved ∧
      (∃ after, getMessages ((MessageCall.deliver 2 1 messages).run greeted) 2 1 = .ok after ∧
        Grows messages after) ∧
      getUnreadCount ((MessageCall.send "10:10".toList 2 1 "bien".toList).run greeted) 2 1
        = getUnreadCount greeted 2 1 := by
  have hrun : Run Messaging ∅
      ([] ++ [.send "10:00".toList 1 2 "hola".toList]
        ++ [.send "10:05".toList 2 1 "que tal".toList])
      greeted := .snoc (.snoc .nil rfl) rfl
  obtain ⟨messages, hmessages, hcalls, hlater, hcount, hsend⟩ := forward_of_run hrun 2 1
  obtain ⟨moved, created, hafter, hmoves, -⟩ := hcalls (.deliver 2 1 messages)
  have hdelivery : Run Messaging greeted ([] ++ [.deliver 2 1 messages])
      ((MessageCall.deliver 2 1 messages).run greeted) := .snoc .nil rfl
  exact ⟨messages, moved, created, hmessages, hcount, hafter, hmoves, hlater _ _ hdelivery,
    hsend _ _ (by decide : (2 : Long) ≠ 1)⟩

end TallerII.MessagesManager
