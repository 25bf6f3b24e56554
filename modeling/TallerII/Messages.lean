import TallerII.Store

/-!
# Messages

`MessagesManager`: the conversation of two users, kept as a whole under a key made of their ids.
The time that `getTimestamp` reads is an argument.
-/

namespace TallerII.MessagesManager

/-- `Message::STATE_SENT`. -/
def stateSent : Text := "sent".toList

/-- `Message::STATE_RECEIVED`. -/
def stateReceived : Text := "received".toList

/-- `Message`. -/
structure Message where
  fromUserId : Long
  toUserId : Long
  message : Text
  timestamp : Text
  state : Text
deriving Repr, DecidableEq

/-- `Message::Message(Json::Value)`. -/
def Message.ofJson (messageAsJson : Json) : Except Exn Message := do
  let message ← (← messageAsJson.member "message").asString
  let timestamp ← (← messageAsJson.member "timestamp").asString
  let fromUserId ← (← messageAsJson.member "from").asLargestInt
  let toUserId ← (← messageAsJson.member "to").asLargestInt
  let state ← (← messageAsJson.member "state").asString
  return { fromUserId, toUserId, message, timestamp, state }

/-- `Message::serializeMe`. -/
def Message.serializeMe (message : Message) : Json :=
  Json.ofMembers [
    ("from", .ofLong message.fromUserId),
    ("to", .ofLong message.toUserId),
    ("message", .string message.message),
    ("timestamp", .string message.timestamp),
    ("state", .string message.state)]

/-- `getKey`: the smaller id stands first. -/
def getKey (fromUserId toUserId : Long) : Text :=
  if fromUserId < toUserId then toString fromUserId ++ ['_'] ++ toString toUserId
  else toString toUserId ++ ['_'] ++ toString fromUserId

/-- `getMessages`. -/
def getMessages (db : DB) (fromUserId toUserId : Long) : Except Exn (List Message) :=
  match db.existsKey (getKey fromUserId toUserId) with
  | none => .ok []
  | some result => do (← result.parse.elements).mapM Message.ofJson

/-- What `putKey` leaves of a conversation. -/
def saveConversation (db : DB) (fromUserId toUserId : Long) (messages : List Message) : DB :=
  db.putKey (getKey fromUserId toUserId)
    (.json (Json.ofAppended (messages.map Message.serializeMe)))

/-- `saveMessage`, which returns the text of the saved message. -/
def saveMessage (db : DB) (now : Text) (fromUserId toUserId : Long) (message : Text) :
    Except Exn Text × DB :=
  let messageToSave : Message :=
    { fromUserId, toUserId, message, timestamp := now, state := stateSent }
  match getMessages db fromUserId toUserId with
  | .error e => (.error e, db)
  | .ok currentMessages =>
    (.ok messageToSave.serializeMe.toStyledString,
      saveConversation db fromUserId toUserId (currentMessages ++ [messageToSave]))

/-- The inner loop of `setMessagesAsReceived`. The message it takes for the delivered one is the
current message itself. -/
def markReceived (fromUserId : Long) (deliveredMessages : List Message)
    (currentMessage : Message) :
    Message :=
  deliveredMessages.foldl (fun currentMessage _ =>
    let deliveredMessage := currentMessage
    if deliveredMessage.timestamp = currentMessage.timestamp ∧
        fromUserId = currentMessage.toUserId then
      { currentMessage with state := stateReceived }
    else currentMessage) currentMessage

/-- `setMessagesAsReceived`. -/
def setMessagesAsReceived (db : DB) (fromUserId toUserId : Long)
    (deliveredMessages : List Message) : Except Exn Unit × DB :=
  match getMessages db fromUserId toUserId with
  | .error e => (.error e, db)
  | .ok currentMessages =>
    (.ok (), saveConversation db fromUserId toUserId
      (currentMessages.map (markReceived fromUserId deliveredMessages)))

/-! ## The keys that are written -/

/-- A printed `long` begins with a digit or the sign, whatever follows it. -/
theorem head_toString_append (value : Long) (rest : Text) :
    ∃ c others, toString value ++ rest = c :: others ∧ (c.isDigit ∨ c = '-') := by
  obtain ⟨c, others, htext⟩ := List.exists_cons_of_ne_nil (Lib.Numeral.toText_ne_nil value.toInt)
  have hmem : c ∈ Lib.Numeral.toText value.toInt := by
    rw [htext]
    exact List.mem_cons_self
  refine ⟨c, others ++ rest, ?_, (Lib.Numeral.mem_toText hmem).symm⟩
  rw [toString, htext]
  rfl

/-- The key of a conversation begins like a number. -/
theorem head_getKey (fromUserId toUserId : Long) :
    ∃ c rest, getKey fromUserId toUserId = c :: rest ∧ (c.isDigit ∨ c = '-') := by
  unfold getKey
  split
  · rw [List.append_assoc]
    exact head_toString_append _ _
  · rw [List.append_assoc]
    exact head_toString_append _ _

/-- The key of a conversation is none of the others. -/
@[simp] theorem getKey_ne_key {fromUserId toUserId : Long} {family : Prefix} {rest : Text} :
    getKey fromUserId toUserId ≠ key family rest := by
  obtain ⟨c, others, hkey, hc⟩ := head_getKey fromUserId toUserId
  intro heq
  have hhead := head_key family rest
  rw [← heq, hkey, List.head?_cons, Option.some.injEq] at hhead
  subst hhead
  revert hc
  cases family <;> decide

/-- Nor is it the key of the counter. -/
@[simp] theorem getKey_ne_lastID {fromUserId toUserId : Long} :
    getKey fromUserId toUserId ≠ lastID := by
  obtain ⟨c, others, hkey, hc⟩ := head_getKey fromUserId toUserId
  intro heq
  have hhead : c = 'l' := by
    rw [hkey] at heq
    exact (List.cons.inj heq).1
  subst hhead
  revert hc
  decide

variable {db : DB} {other : Text}

/-- A message writes its conversation alone. -/
theorem existsKey_saveMessage {fromUserId toUserId : Long}
    (hother : getKey fromUserId toUserId ≠ other) (now message : Text) :
    (saveMessage db now fromUserId toUserId message).2.existsKey other = db.existsKey other := by
  simp only [saveMessage]
  split
  · rfl
  · rw [saveConversation, DB.existsKey_putKey, if_neg hother]

/-- So does marking messages. -/
theorem existsKey_setMessagesAsReceived {fromUserId toUserId : Long}
    (hother : getKey fromUserId toUserId ≠ other) (deliveredMessages : List Message) :
    (setMessagesAsReceived db fromUserId toUserId deliveredMessages).2.existsKey other
      = db.existsKey other := by
  unfold setMessagesAsReceived
  split
  · rfl
  · rw [saveConversation, DB.existsKey_putKey, if_neg hother]

end TallerII.MessagesManager
