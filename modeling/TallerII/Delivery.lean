import TallerII.Access
import TallerII.Contacts
import TallerII.History

/-!
# Reading a conversation

Reading a window of a conversation marks messages as received. `handleGetRequest_delivered` says
when those are the delivered ones: an empty window marks nothing, and any other one marks every
message that is addressed to the reader, also outside the window.
-/

namespace TallerII.MessagesHandler

open Handler MessagesManager SessionManager

/-! ## Windows -/

/-- What a loop over a range visits, when it stays within the messages. -/
theorem visit_eq_ok {messages visited : List Message} {start turns : Nat} :
    visit messages (start + 1) turns = .ok visited ↔
      (turns = 0 ∨ start + turns ≤ messages.length) ∧
        visited = (messages.drop start).take turns := by
  induction turns generalizing start visited with
  | zero => simp [visit, eq_comm]
  | succ turns ih =>
      cases hmessage : messages[start]? with
      | none =>
          have hlength := List.getElem?_eq_none_iff.mp hmessage
          simp only [visit, hmessage]
          constructor
          · intro hthrown
            cases hthrown
          · rintro ⟨hrange, -⟩
            omega
      | some message =>
          obtain ⟨hlength, hget⟩ := List.getElem?_eq_some_iff.mp hmessage
          have hdrop : messages.drop start = message :: messages.drop (start + 1) := by
            rw [List.drop_eq_getElem_cons hlength, hget]
          simp only [visit, hmessage, bind_eq_ok, ih, hdrop, List.take_succ_cons]
          constructor
          · rintro ⟨rest, ⟨hrange, rfl⟩, hvisited⟩
            cases hvisited
            exact ⟨.inr (by omega), rfl⟩
          · rintro ⟨hrange, rfl⟩
            exact ⟨_, ⟨by omega, rfl⟩, rfl⟩

/-- A query asks for the messages from the first to the last one, counted from the newest one. -/
def Requests (queryParams : Text) (first last : Int32) : Prop :=
  ∃ firstParam lastParam, getFirstFromQueryParamsIfExists queryParams = .ok firstParam ∧
    getLastFromQueryParamsIfExists queryParams = .ok lastParam ∧
    0 ≤ firstParam ∧ 0 ≤ lastParam ∧
    first = (if firstParam ≠ 0 then firstParam else firstIndex) ∧
    (if lastParam ≠ 0 then pure lastParam else RecommendationsManager.addInt firstParam maxCant)
      = (.ok last : Except Exn Int32) ∧ first ≤ last

/-- The messages from the first to the last one, counted from the newest one. -/
def newest (messages : List Message) (first last : Nat) : List Message :=
  (messages.drop (messages.length - last)).take (min last messages.length + 1 - first)

/-- What the bounds of a window that is accepted were. -/
theorem truncateMessages_eq_ok {messages : List Message} {queryParams : Text} {window : Window}
    (h : truncateMessages messages queryParams = .ok window) :
    ∃ first last, Requests queryParams first last ∧ doTruncate messages first
      (if messages.length < last.toInt then Int32.ofInt messages.length else last)
        = .ok window := by
  simp only [truncateMessages, bind_eq_ok] at h
  obtain ⟨firstParam, hfirst, lastParam, hlast, h⟩ := h
  split at h
  · cases h
  rename_i hpositive
  rw [not_or, Int32.not_lt, Int32.not_lt] at hpositive
  generalize hstart : (if firstParam ≠ 0 then firstParam else firstIndex) = first at h
  obtain ⟨last, hend, h⟩ : ∃ last, (if lastParam ≠ 0 then pure lastParam
      else RecommendationsManager.addInt firstParam maxCant) = (.ok last : Except Exn Int32) ∧
        (if last < first then do
          throw (Exn.invalidRequest "first can not be greater than last".toList)
          doTruncate messages first
            (if messages.length < last.toInt then Int32.ofInt messages.length else last)
        else doTruncate messages first
          (if messages.length < last.toInt then Int32.ofInt messages.length else last))
          = .ok window := by
    split at h
    · rename_i hgiven
      exact ⟨lastParam, if_pos hgiven, h⟩
    · rename_i hdefault
      rw [if_neg hdefault]
      exact bind_eq_ok.mp h
  split at h
  · cases h
  · rename_i hordered
    exact ⟨first, last,
      ⟨firstParam, lastParam, hfirst, hlast, hpositive.1, hpositive.2, hstart.symm,
      hend, Int32.not_lt.mp hordered⟩, h⟩

/-- The bounds of a request are positive and in order. -/
theorem Requests.bounds {queryParams : Text} {first last : Int32}
    (h : Requests queryParams first last) : 1 ≤ first.toInt ∧ first.toInt ≤ last.toInt := by
  obtain ⟨firstParam, lastParam, -, -, hfirst, -, rfl, -, hordered⟩ := h
  refine ⟨?_, Int32.le_iff_toInt_le.mp hordered⟩
  split
  · rename_i hne
    have hnonneg : 0 ≤ firstParam.toInt := Int32.le_iff_toInt_le.mp hfirst
    have hnonzero : firstParam.toInt ≠ 0 := fun hzero => hne (Int32.toInt_inj.mp hzero)
    omega
  · decide

/-- A number within the range is its own unsigned value. -/
theorem unsigned_of_range {value : Int} (hnonneg : 0 ≤ value) (hrange : value < 2 ^ 64) :
    unsigned value = value.toNat := by
  rw [unsigned, Int.emod_eq_of_lt hnonneg hrange]

/-- The last index that is used is at most the number of messages. -/
theorem toInt_clamped (messages : List Message) (last : Int32) (hlast : 0 ≤ last.toInt) :
    (if messages.length < last.toInt then Int32.ofInt messages.length else last).toInt
      = (min last.toInt.toNat messages.length : Nat) := by
  have hsmall := last.toInt_lt
  split
  · rename_i hlong
    rw [Int32.toInt_ofInt_of_le (by omega) (by omega)]
    omega
  · omega

/-- A window that is accepted has at most one message too many before it, and is what it asks
for. -/
theorem doTruncate_eq_ok {messages : List Message} {first last : Int32} {window : Window}
    (hlength : messages.length < 2 ^ 64) (hfirst : 1 ≤ first.toInt)
    (hordered : first.toInt ≤ last.toInt)
    (h : doTruncate messages first
      (if messages.length < last.toInt then Int32.ofInt messages.length else last) = .ok window) :
    first.toInt ≤ messages.length + 1 ∧
      window.messagesToReturn = newest messages first.toInt.toNat last.toInt.toNat := by
  have hbound := toInt_clamped messages last (by omega)
  simp only [doTruncate, hbound, bind_eq_ok] at h
  obtain ⟨newer, -, returned, hreturned, older, -, hwindow⟩ := h
  -- the last message of the window, counted from the newest one
  generalize hcount : min last.toInt.toNat messages.length = count at hreturned
  have hfrom : unsigned (messages.length - count + 1) = messages.length - count + 1 := by
    rw [unsigned_of_range (by omega) (by omega)]
    omega
  rw [hfrom, visit_eq_ok] at hreturned
  obtain ⟨hrange, rfl⟩ := hreturned
  cases hwindow
  have hsmall := first.toInt_lt
  by_cases hfar : messages.length + 1 < first.toInt
  · -- The end of the range wraps around, past every message.
    have hto : (unsigned (messages.length - first.toInt + 1) : Int)
        = messages.length - first.toInt + 1 + 2 ^ 64 := by
      rw [unsigned, ← Int.add_emod_right, Int.emod_eq_of_lt (by omega) (by omega)]
      omega
    omega
  · have hto : unsigned (messages.length - first.toInt + 1)
        = messages.length + 1 - first.toInt.toNat := by
      rw [unsigned_of_range (by omega) (by omega)]
      omega
    refine ⟨by omega, ?_⟩
    have hstart : messages.length - count = messages.length - last.toInt.toNat := by omega
    have hturns : messages.length + 1 - first.toInt.toNat + 1 - (messages.length - count + 1)
        = count + 1 - first.toInt.toNat := by omega
    rw [newest, hto, hturns, hcount, hstart]

/-! ## What a delivery marks -/

/-- A message is addressed to a reader and has the time of a delivered one. -/
def DeliveredTo (reader : Long) (delivered : List Message) (message : Message) : Prop :=
  message.toUserId = reader ∧ ∃ other ∈ delivered, other.timestamp = message.timestamp

/-- A message as it is to be after a delivery. -/
structure Marked (reader : Long) (delivered : List Message) (before after : Message) : Prop where
  content : after.content = before.content
  received : after.state = stateReceived ↔
    before.state = stateReceived ∨ DeliveredTo reader delivered before
  kept : ¬ DeliveredTo reader delivered before → after.state = before.state

/-- Only what was delivered is marked. -/
def MarksDelivered (db next : DB) (reader writer : Long) (delivered : List Message) : Prop :=
  ∃ before after, MessagesManager.getMessages db reader writer = .ok before ∧
    MessagesManager.getMessages next reader writer = .ok after ∧
    List.Forall₂ (Marked reader delivered) before after

/-- A message is marked as it is to be when nothing was delivered, when it is addressed to another
user or already received, or when it has the time of a delivered message. -/
theorem marked_markReceived {reader : Long} {delivered : List Message} {message : Message} :
    Marked reader delivered message (markReceived reader delivered message) ↔
      delivered = [] ∨ (message.toUserId = reader → message.state ≠ stateReceived →
        ∃ other ∈ delivered, other.timestamp = message.timestamp) := by
  by_cases hnone : delivered = []
  · subst hnone
    refine iff_of_true ⟨rfl, ?_, fun _ => rfl⟩ (.inl rfl)
    simp [markReceived, DeliveredTo]
  constructor
  · intro hmarked
    refine .inr fun hto hunread => ?_
    have hnow : (markReceived reader delivered message).state = stateReceived := by
      rw [markReceived_eq, if_pos ⟨hnone, hto.symm⟩]
    exact ((hmarked.received.mp hnow).resolve_left hunread).2
  · intro hcover
    replace hcover := hcover.resolve_left hnone
    refine ⟨content_markReceived reader delivered message, ?_, ?_⟩
    · rw [markReceived_eq]
      split
      · rename_i haddressed
        refine iff_of_true rfl ?_
        by_cases hread : message.state = stateReceived
        · exact .inl hread
        · exact .inr ⟨haddressed.2.symm, hcover haddressed.2.symm hread⟩
      · rename_i hother
        refine ⟨.inl, fun hstate => hstate.resolve_right fun hdelivered => ?_⟩
        exact hother ⟨hnone, hdelivered.1.symm⟩
    · intro hundelivered
      rw [markReceived_eq]
      split
      · rename_i haddressed
        by_contra hstate
        exact hundelivered ⟨haddressed.2.symm,
          hcover haddressed.2.symm fun hread => hstate hread.symm⟩
      · rfl

/-- Saving what a delivery made of a conversation marks what was delivered iff it does so with
every message. -/
theorem marksDelivered_saveConversation {db : DB} {reader writer : Long}
    {messages delivered : List Message}
    (h : MessagesManager.getMessages db reader writer = .ok messages) :
    MarksDelivered db (saveConversation db reader writer
      (messages.map (markReceived reader delivered))) reader writer delivered ↔
      delivered = [] ∨ ∀ message ∈ messages, message.toUserId = reader →
        message.state ≠ stateReceived →
        ∃ other ∈ delivered, other.timestamp = message.timestamp := by
  have hafter : MessagesManager.getMessages (saveConversation db reader writer
      (messages.map (markReceived reader delivered))) reader writer
      = .ok (messages.map (markReceived reader delivered)) := by
    rw [getMessages_saveConversation, if_pos rfl]
  simp only [MarksDelivered, h, hafter, Except.ok.injEq, exists_and_left, exists_eq_left',
    List.forall₂_map_right_iff, List.forall₂_same, marked_markReceived]
  by_cases hnone : delivered = []
  · simp [hnone]
  · simp [hnone]

/-! ## Reading a window -/

/-- What a successful answer went through. -/
theorem handleGetRequest_eq_ok {session : Option Session} {httpMessage : HttpMessage} {url : Text}
    {server next : Server} {response : Response}
    (h : (handleGetRequest session httpMessage url).serve server = (.ok response, next))
    (hsuccessful : response.IsSuccessful) :
    ∃ reader writer messages window, getUserIdFromUrl url = .ok reader ∧
      getToUserFromQueryParams httpMessage.queryString = .ok writer ∧
      MessagesManager.getMessages server.db reader writer = .ok messages ∧
      truncateMessages messages httpMessage.queryString = .ok window ∧
      response = (({} : Response).setBody (buildJsonResponse window.messagesToReturn
        messages.length).toStyledString).setSuccessfulHeader ∧
      next.db = saveConversation server.db reader writer
        (messages.map (markReceived reader window.messagesToReturn)) := by
  rw [handleGetRequest, Action.serve_handling] at h
  split at h
  · rename_i e _ _
    exact absurd hsuccessful (not_isSuccessful_answered (congrArg Prod.fst h))
  rename_i hserved
  rw [h] at hserved
  simp only [Action.serve_bind_eq_ok, Action.serve_ofExcept, Action.serve_query,
    Action.serve_onStore, Action.serve_pure, Prod.mk.injEq, and_assoc, exists_and_left,
    exists_eq_left'] at hserved
  obtain ⟨reader, hreader, _, -, _, -, writer, hwriter, messages, hread, window, hwindow, _, -,
    hresponse, rfl⟩ := hserved
  obtain ⟨_, -, hmessages⟩ := bind_eq_ok.mp hread
  refine ⟨reader, writer, messages, window, hreader, hwriter, hmessages, hwindow,
    (Except.ok.inj hresponse).symm, ?_⟩
  rw [setMessagesAsReceived, hmessages]

/-- After a window of a conversation was answered, the messages that were delivered are those that
are marked, iff the window is empty or every unread message to the reader has the time of a
message in it. -/
theorem handleGetRequest_delivered {session : Option Session} {httpMessage : HttpMessage}
    {url : Text} {server next : Server} {response : Response}
    (h : (handleGetRequest session httpMessage url).serve server = (.ok response, next))
    (hsuccessful : response.IsSuccessful) :
    ∃ reader writer messages first last delivered, getUserIdFromUrl url = .ok reader ∧
      getToUserFromQueryParams httpMessage.queryString = .ok writer ∧
      MessagesManager.getMessages server.db reader writer = .ok messages ∧
      Requests httpMessage.queryString first last ∧
      (messages.length < 2 ^ 64 → first.toInt ≤ messages.length + 1 ∧
        delivered = newest messages first.toInt.toNat last.toInt.toNat) ∧
      response.getBody = (buildJsonResponse delivered messages.length).toStyledString ∧
      (MarksDelivered server.db next.db reader writer delivered ↔
        delivered = [] ∨ ∀ message ∈ messages, message.toUserId = reader →
          message.state ≠ stateReceived →
          ∃ other ∈ delivered, other.timestamp = message.timestamp) := by
  obtain ⟨reader, writer, messages, window, hreader, hwriter, hmessages, hwindow, rfl, hnext⟩ :=
    handleGetRequest_eq_ok h hsuccessful
  obtain ⟨first, last, hrequests, htruncated⟩ := truncateMessages_eq_ok hwindow
  obtain ⟨hfirst, hordered⟩ := hrequests.bounds
  refine ⟨reader, writer, messages, first, last, window.messagesToReturn, hreader, hwriter,
    hmessages, hrequests, fun hlength => doTruncate_eq_ok hlength hfirst hordered htruncated, rfl,
    ?_⟩
  rw [hnext]
  exact marksDelivered_saveConversation hmessages

/-! ## A window of one message -/

/-- A message of the user 2 to the user 1. -/
def sample (timestamp : String) : Message where
  fromUserId := 2
  toUserId := 1
  message := "hola".toList
  timestamp := timestamp.toList
  state := stateSent

/-- Two users, and the messages that one of them sent. -/
def twoMessages : DB :=
  PersonManager.execAll (PersonManager.twoUsersAnd [] ++
    [.saveMessage "09:00".toList (sample "09:00").serializeMe,
      .saveMessage "10:00".toList (sample "10:00").serializeMe])

/-- The other user asks for the newest message. -/
def getNewest : HttpMessage where
  method := "GET".toList
  uri := "/messages/1".toList
  queryString := "user=2&first=1&last=1".toList
  authorization := none
  body := []
  bodyLen := 0

/-- Both messages are in the conversation. -/
theorem getMessages_twoMessages :
    MessagesManager.getMessages twoMessages 1 2 = .ok [sample "09:00", sample "10:00"] := by
  decide

/-- What the request leaves. -/
def afterNewest : DB :=
  saveConversation twoMessages 1 2
    ([sample "09:00", sample "10:00"].map (markReceived 1 [sample "10:00"]))

/-- The newest message is answered. -/
theorem serve_getNewest :
    (handleGetRequest (some ⟨['t'], ['a'], 0, 1⟩) getNewest getNewest.uri).serve
        { db := twoMessages, files := fun _ => none }
      = (.ok (({} : Response).setBody
          (buildJsonResponse [sample "10:00"] 2).toStyledString).setSuccessfulHeader,
        { db := afterNewest, files := fun _ => none }) := by
  have hreader : getUserIdFromUrl getNewest.uri = .ok 1 := by decide
  have hpermitted : require (Security.hasPermissionToReadMessage 1 1) = .ok () := by decide
  have hwriter : getToUserFromQueryParams getNewest.queryString = .ok 2 := by decide
  have hread : PersonManager.getMessages twoMessages 1 2
      = .ok [sample "09:00", sample "10:00"] := by decide
  have hwindow : truncateMessages [sample "09:00", sample "10:00"] getNewest.queryString
      = .ok ⟨[sample "10:00"], [sample "09:00"]⟩ := by rfl
  have hmarked : setMessagesAsReceived twoMessages 1 2 [sample "10:00"]
      = (.ok (), afterNewest) := by
    rw [setMessagesAsReceived, getMessages_twoMessages, afterNewest]
  refine Action.serve_handling_ok ?_ _
  simp only [Action.serve_bind, Action.serve_ofExcept, Action.serve_query, Action.serve_onStore,
    Action.serve_pure, hreader, hpermitted, hwriter, hread, hwindow, hmarked, Handler.getUserId,
    List.length_cons, List.length_nil]

/-- One unread message is older than the window and has another time. -/
theorem handleGetRequest_delivered_newest :
    ∃ reader writer messages delivered,
      MessagesManager.getMessages twoMessages reader writer = .ok messages ∧
      (MarksDelivered twoMessages afterNewest reader writer delivered ↔
        delivered = [] ∨ ∀ message ∈ messages, message.toUserId = reader →
          message.state ≠ stateReceived →
          ∃ other ∈ delivered, other.timestamp = message.timestamp) := by
  obtain ⟨reader, writer, messages, _, _, delivered, -, -, hmessages, -, -, -, hmarks⟩ :=
    handleGetRequest_delivered serve_getNewest rfl
  exact ⟨reader, writer, messages, delivered, hmessages, hmarks⟩

/-- The older message is marked as received, although only the newest one was answered. -/
theorem getNewest_marks_older :
    ∃ response next,
      (handleGetRequest (some ⟨['t'], ['a'], 0, 1⟩) getNewest getNewest.uri).serve
        { db := twoMessages, files := fun _ => none } = (.ok response, next) ∧
      response.IsSuccessful ∧
      response.getBody = (buildJsonResponse [sample "10:00"] 2).toStyledString ∧
      ¬ MarksDelivered twoMessages next.db 1 2 [sample "10:00"] := by
  refine ⟨_, _, serve_getNewest, rfl, rfl, ?_⟩
  rw [afterNewest, marksDelivered_saveConversation getMessages_twoMessages]
  decide

end TallerII.MessagesHandler
