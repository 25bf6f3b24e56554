import TallerII.Person
import TallerII.Messages
import TallerII.Lib.Delimited
import TallerII.Lib.Run

/-!
# The history of a conversation

A conversation is read back as it was written, under a key that two users share with nobody else.
So after any run of sends and of deliveries, the messages of two users are those that they sent to
each other, in order and with their contents: a delivery changes states only.
-/

namespace TallerII.MessagesManager

open Lib Lib.Delimited

variable {db next : DB}

/-! ## Reading a conversation back -/

/-- A message survives storing and loading. -/
@[simp] theorem Message.ofJson_serializeMe (message : Message) :
    Message.ofJson message.serializeMe = .ok message := by
  simp [Message.ofJson, Message.serializeMe, Json.assigned]

/-- The key does not depend on who sends. -/
theorem getKey_comm (fromUserId toUserId : Long) :
    getKey fromUserId toUserId = getKey toUserId fromUserId := by
  unfold getKey
  by_cases hlt : fromUserId < toUserId
  · rw [if_pos hlt, if_neg (Int64.lt_asymm hlt)]
  · by_cases hgt : toUserId < fromUserId
    · rw [if_neg hlt, if_pos hgt]
    · have hsame : fromUserId = toUserId := Int64.le_antisymm (Int64.not_lt.mp hgt)
        (Int64.not_lt.mp hlt)
      rw [hsame]

/-- The two ids are the pieces of a key. -/
theorem getlines_toString (left right : Long) :
    getlines '_' (toString left ++ ['_'] ++ toString right)
      = [toString left, toString right] := by
  have hfree : ∀ value : Long, '_' ∉ toString value := fun value =>
    Numeral.not_mem_toText (by decide) (by decide) value.toInt
  have hplain : Plain '_' (toString right) := ⟨Numeral.toText_ne_nil _, hfree right⟩
  rw [List.append_assoc, List.singleton_append, getlines_append_delim (hfree left),
    getlines_single hplain]

/-- The key of a conversation holds both ids, the smaller one first. -/
theorem getKey_eq (fromUserId toUserId : Long) :
    ∃ low high, getlines '_' (getKey fromUserId toUserId) = [toString low, toString high] ∧
      (low = fromUserId ∧ high = toUserId ∨ low = toUserId ∧ high = fromUserId) := by
  unfold getKey
  split
  · exact ⟨_, _, getlines_toString _ _, .inl ⟨rfl, rfl⟩⟩
  · exact ⟨_, _, getlines_toString _ _, .inr ⟨rfl, rfl⟩⟩

/-- Two users share a key with nobody else. -/
theorem getKey_inj {fromUserId toUserId other another : Long} :
    getKey fromUserId toUserId = getKey other another ↔
      fromUserId = other ∧ toUserId = another ∨ fromUserId = another ∧ toUserId = other := by
  constructor
  · intro hkey
    obtain ⟨low, high, hpieces, husers⟩ := getKey_eq fromUserId toUserId
    obtain ⟨low', high', hpieces', husers'⟩ := getKey_eq other another
    rw [hkey, hpieces'] at hpieces
    simp only [List.cons.injEq, toString_inj, and_true] at hpieces
    obtain ⟨rfl, rfl⟩ := hpieces
    rcases husers with ⟨rfl, rfl⟩ | ⟨rfl, rfl⟩ <;> rcases husers' with ⟨rfl, rfl⟩ | ⟨rfl, rfl⟩ <;>
      simp
  · rintro (⟨rfl, rfl⟩ | ⟨rfl, rfl⟩)
    · rfl
    · exact getKey_comm _ _

/-- The messages of two users after a conversation was saved. -/
theorem getMessages_saveConversation (db : DB) (fromUserId toUserId : Long)
    (messages : List Message) (other another : Long) :
    getMessages (saveConversation db fromUserId toUserId messages) other another
      = if getKey fromUserId toUserId = getKey other another then .ok messages
        else getMessages db other another := by
  rw [getMessages, saveConversation, DB.existsKey_putKey]
  by_cases hkey : getKey fromUserId toUserId = getKey other another
  · rw [if_pos hkey, if_pos hkey]
    simp only [Entry.parse, Json.elements_ofAppended, ok_bind]
    exact mapM_map_of_inverse fun message _ => Message.ofJson_serializeMe message
  · rw [if_neg hkey, if_neg hkey]
    rfl

/-- Both users of a conversation have the same one. -/
theorem getMessages_comm (db : DB) (fromUserId toUserId : Long) :
    getMessages db fromUserId toUserId = getMessages db toUserId fromUserId := by
  rw [getMessages, getMessages, getKey_comm]

/-! ## Deliveries -/

/-- A delivery that answered no message changes nothing; any other one marks every message that is
addressed to the reader. -/
theorem markReceived_eq (fromUserId : Long) (deliveredMessages : List Message)
    (message : Message) :
    markReceived fromUserId deliveredMessages message
      = if deliveredMessages ≠ [] ∧ fromUserId = message.toUserId then
          { message with state := stateReceived }
        else message := by
  induction deliveredMessages generalizing message with
  | nil => simp [markReceived]
  | cons delivered rest ih =>
      have hround : markReceived fromUserId (delivered :: rest) message
          = markReceived fromUserId rest
            (if fromUserId = message.toUserId then { message with state := stateReceived }
              else message) := by
        simp [markReceived]
      rw [hround, ih]
      by_cases hto : fromUserId = message.toUserId
      · simp [hto]
      · simp [hto]

/-- What a message says: its sender, its receiver, its text and its time. -/
def Message.content (message : Message) : Long × Long × Text × Text :=
  (message.fromUserId, message.toUserId, message.message, message.timestamp)

/-- Marking a message leaves its content. -/
theorem content_markReceived (fromUserId : Long) (deliveredMessages : List Message)
    (message : Message) :
    (markReceived fromUserId deliveredMessages message).content = message.content := by
  rw [markReceived_eq]
  split <;> rfl

/-! ## Runs -/

/-- A call on a conversation of two users. -/
inductive MessageCall where
  | send (now : Text) (fromUserId toUserId : Long) (message : Text)
  | deliver (fromUserId toUserId : Long) (deliveredMessages : List Message)

/-- Runs a call; what it leaves also when it throws. -/
def MessageCall.run (db : DB) : MessageCall → DB
  | send now fromUserId toUserId message => (saveMessage db now fromUserId toUserId message).2
  | deliver fromUserId toUserId deliveredMessages =>
    (setMessagesAsReceived db fromUserId toUserId deliveredMessages).2

/-- A call of any two users, with what it leaves. -/
def Messaging (db : DB) (call : MessageCall) (next : DB) : Prop :=
  call.run db = next

/-- What a call sends between two users, in either direction. -/
def MessageCall.sentBetween (user other : Long) : MessageCall → Option (Long × Long × Text × Text)
  | send now fromUserId toUserId message =>
    if fromUserId = user ∧ toUserId = other ∨ fromUserId = other ∧ toUserId = user then
      some (fromUserId, toUserId, message, now)
    else none
  | deliver _ _ _ => none

/-- Every conversation reads back as what its two users sent to each other. -/
def Exact (calls : List MessageCall) (db : DB) : Prop :=
  ∀ user other, ∃ messages, getMessages db user other = .ok messages ∧
    messages.map Message.content = calls.filterMap (MessageCall.sentBetween user other)

/-- Every conversation can be read. -/
theorem Exact.readable {calls : List MessageCall} (h : Exact calls db) (user other : Long) :
    ∃ messages, getMessages db user other = .ok messages := by
  obtain ⟨messages, hmessages, -⟩ := h user other
  exact ⟨messages, hmessages⟩

/-- The two users may be named in either order. -/
theorem getMessages_of_pair {fromUserId toUserId user other : Long}
    (hpair : fromUserId = user ∧ toUserId = other ∨ fromUserId = other ∧ toUserId = user) :
    getMessages db fromUserId toUserId = getMessages db user other := by
  rw [getMessages, getKey_inj.mpr hpair, getMessages]

/-- The two users read one conversation. -/
theorem messages_eq_of_pair {fromUserId toUserId user other : Long}
    {current messages : List Message}
    (hpair : fromUserId = user ∧ toUserId = other ∨ fromUserId = other ∧ toUserId = user)
    (hcurrent : getMessages db fromUserId toUserId = .ok current)
    (h : getMessages db user other = .ok messages) : current = messages := by
  rw [getMessages_of_pair hpair, h] at hcurrent
  exact (Except.ok.inj hcurrent).symm

/-- One call appends what it sends between two users to their conversation. -/
theorem getMessages_run (call : MessageCall)
    (hread : ∀ user other, ∃ messages, getMessages db user other = .ok messages)
    {user other : Long} {messages : List Message} (h : getMessages db user other = .ok messages) :
    ∃ after, getMessages (call.run db) user other = .ok after ∧
      after.map Message.content
        = messages.map Message.content ++ (call.sentBetween user other).toList := by
  cases call with
  | send now fromUserId toUserId message =>
      obtain ⟨current, hcurrent⟩ := hread fromUserId toUserId
      simp only [MessageCall.run, saveMessage, hcurrent, getMessages_saveConversation, getKey_inj,
        MessageCall.sentBetween]
      split
      · rename_i hpair
        obtain rfl := messages_eq_of_pair hpair hcurrent h
        refine ⟨_, rfl, ?_⟩
        rw [List.map_append]
        rfl
      · exact ⟨messages, h, (List.append_nil _).symm⟩
  | deliver fromUserId toUserId deliveredMessages =>
      obtain ⟨current, hcurrent⟩ := hread fromUserId toUserId
      simp only [MessageCall.run, setMessagesAsReceived, hcurrent, getMessages_saveConversation,
        getKey_inj, MessageCall.sentBetween, Option.toList_none, List.append_nil]
      split
      · rename_i hpair
        obtain rfl := messages_eq_of_pair hpair hcurrent h
        refine ⟨_, rfl, ?_⟩
        rw [List.map_map]
        exact List.map_congr_left fun message _ => content_markReceived _ _ message
      · exact ⟨messages, h, rfl⟩

/-- Without messages every conversation is empty. -/
theorem exact_empty : Exact [] ∅ := by
  intro user other
  refine ⟨[], ?_, rfl⟩
  rw [getMessages, DB.existsKey_empty]

/-- A call keeps every conversation exact. -/
theorem Exact.step {calls : List MessageCall} {call : MessageCall} (h : Exact calls db)
    (hstep : Messaging db call next) : Exact (calls ++ [call]) next := by
  obtain rfl := hstep
  intro user other
  obtain ⟨messages, hmessages, hcontents⟩ := h user other
  obtain ⟨after, hafter, hsent⟩ := getMessages_run call h.readable hmessages
  refine ⟨after, hafter, ?_⟩
  rw [hsent, hcontents, List.filterMap_append]
  cases hcall : call.sentBetween user other <;> simp [hcall]

/-- After any run of sends and deliveries, reading the messages of two users succeeds in either
order and gives what they sent to each other, in the order in which they sent it. -/
theorem getMessages_history {calls : List MessageCall} (h : Run Messaging ∅ calls db)
    (user other : Long) :
    ∃ messages, getMessages db user other = .ok messages ∧
      getMessages db other user = .ok messages ∧
      messages.map Message.content = calls.filterMap (MessageCall.sentBetween user other) := by
  have hexact : Exact calls db :=
    h.history exact_empty fun _ _ _ _ hbefore hstep => hbefore.step hstep
  obtain ⟨messages, hmessages, hcontents⟩ := hexact user other
  exact ⟨messages, hmessages, (getMessages_comm db other user).trans hmessages, hcontents⟩

/-- Three users write in two conversations, and one message is delivered. -/
def written : List MessageCall :=
  [.send "10:00".toList 1 2 "hola".toList, .send "10:01".toList 1 3 "otro".toList,
    .send "10:02".toList 2 1 "que tal".toList,
    .deliver 2 1 [⟨1, 2, "hola".toList, "10:00".toList, stateSent⟩]]

/-- The first two users read what they wrote to each other, in order and in either direction. -/
theorem getMessages_history_delivered :
    ∃ messages, getMessages (written.foldl MessageCall.run ∅) 1 2 = .ok messages ∧
      getMessages (written.foldl MessageCall.run ∅) 2 1 = .ok messages ∧
      messages.map Message.content = [(1, 2, "hola".toList, "10:00".toList),
        (2, 1, "que tal".toList, "10:02".toList)] := by
  have hrun : Run Messaging ∅ ([] ++ [written[0]] ++ [written[1]] ++ [written[2]] ++ [written[3]])
      (written.foldl MessageCall.run ∅) :=
    .snoc (.snoc (.snoc (.snoc .nil rfl) rfl) rfl) rfl
  exact getMessages_history hrun 1 2

end TallerII.MessagesManager
