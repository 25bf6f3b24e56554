import TallerII.Calls

/-!
# Queries

The operations of `PersonManager` that only read: the contacts, the recommendations and the
conversations of a user.
-/

namespace TallerII

namespace MessagesManager

/-- `getUnreadCount`. -/
def getUnreadCount (db : DB) (requesterUserId withUserId : Long) : Except Exn Nat := do
  let currentMessages ← getMessages db requesterUserId withUserId
  return currentMessages.countP fun currentMessage =>
    currentMessage.state = stateSent ∧ requesterUserId = currentMessage.toUserId

/-- Among messages of two users those that are counted are from the other one. -/
theorem getUnreadCount_of_pairs {db : DB} {user other : Long} {messages : List Message}
    (hmessages : getMessages db user other = .ok messages)
    (hpairs : ∀ message ∈ messages, message.fromUserId = user ∧ message.toUserId = other ∨
      message.fromUserId = other ∧ message.toUserId = user) :
    getUnreadCount db user other = .ok (messages.countP fun message =>
      message.fromUserId = other ∧ message.toUserId = user ∧ message.state = stateSent) := by
  have hcount : messages.countP (fun message => message.state = stateSent ∧
      user = message.toUserId) = messages.countP fun message =>
      message.fromUserId = other ∧ message.toUserId = user ∧ message.state = stateSent := by
    refine List.countP_congr fun message hmessage => ?_
    simp only [decide_eq_true_eq]
    constructor
    · rintro ⟨hstate, hto⟩
      rcases hpairs message hmessage with ⟨hfrom, hother⟩ | ⟨hfrom, -⟩
      · exact ⟨hfrom.trans (hto.trans hother), hto.symm, hstate⟩
      · exact ⟨hfrom, hto.symm, hstate⟩
    · rintro ⟨-, hto, hstate⟩
      exact ⟨hstate, hto.symm⟩
  rw [getUnreadCount, hmessages, ok_bind, ← hcount]
  rfl

/-- `Conversation`. -/
structure Conversation where
  withUser : Long
  firstName : Text
  lastName : Text
  unreadCount : Nat
deriving Repr, DecidableEq

/-- `Conversation::serializeMe`. -/
def Conversation.serializeMe (conversation : Conversation) : Json :=
  Json.ofMembers [
    ("with", .ofLong conversation.withUser),
    ("first_name", .string conversation.firstName),
    ("last_name", .string conversation.lastName),
    ("unread_count", .int conversation.unreadCount)]

end MessagesManager

namespace RecommendationsManager

/-- `getRecommendationsAsJson`: an array also when there is nothing in it. -/
def getRecommendationsAsJson (db : DB) (userId : Long) : Except Exn Json := do
  let recommendations ← getRecommendationsByUserId db userId
  return .array (recommendations.map .ofLong)

end RecommendationsManager

namespace PersonManager

open Manager MessagesManager

/-- `getContactsByUserId`. -/
def getContactsByUserId (db : DB) (id : Long) : Except Exn (List RelationsManager.Contact) :=
  if ! userExists db id then .error (.userNotFoundId id)
  else RelationsManager.getContactsByUserId db id

/-- The ids in the keys that an iterator visits from the first key of an id up to a key that is
the prefix of the records itself, without those whose value is empty. -/
def getAllUsersIds (db : DB) : Except Exn (List Long) :=
  let visited := (db.toList.dropWhile (·.1 < Prefix.userUuid.chars)).takeWhile
    (·.1 ≠ Prefix.userMail.chars)
  (visited.filter fun entry => ! entry.2.isEmpty).mapM fun entry =>
    stol (entry.1.drop Prefix.userUuid.chars.length)

/-- The conversation of a user with another one, when they exchanged messages. -/
def conversationWith (db : DB) (userId other : Long) : Except Exn (Option Conversation) :=
  if userId = other then .ok none
  else do
    let messages ← MessagesManager.getMessages db userId other
    if messages = [] then return none
    let person ← getUserById db other
    let unreadCount ← getUnreadCount db userId other
    return some {
      withUser := other, firstName := person.firstName, lastName := person.lastName, unreadCount }

/-- `getAllConversations`. -/
def getAllConversations (db : DB) (userId : Long) : Except Exn (List Conversation) := do
  let ids ← getAllUsersIds db
  let conversations ← ids.mapM (conversationWith db userId)
  return conversations.filterMap id

end PersonManager

end TallerII
