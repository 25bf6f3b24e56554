import TallerII.PersonManager
import TallerII.Recommendations
import TallerII.Relations
import TallerII.Messages
import TallerII.Lib.Run

/-!
# The calls of `PersonManager`

The operations that `PersonManager` hands to its other managers, and `Call`, one constructor for
each public operation that can write to the store. `exec` runs a call.
-/

namespace TallerII.PersonManager

open Manager

/-- `validateUsersOfRequest`. -/
def validateUsersOfRequest (db : DB) (fromUserId toUserId : Long) : Except Exn Unit :=
  if ! userExists db fromUserId then .error (.userNotFoundId fromUserId)
  else if ! userExists db toUserId then .error (.userNotFoundId toUserId)
  else if fromUserId = toUserId then
    .error (.invalidRequest "From user and to user cannot be equals".toList)
  else .ok ()

/-- `saveOrUpdateRelation`. -/
def saveOrUpdateRelation (db : DB) (relation : Json) : Except Exn Unit × DB :=
  let request : Except Exn (Long × Long × Text) := do
    let authorId ← (← relation.member "author_id").asLargestInt
    let contactId ← (← relation.member "contact_id").asLargestInt
    if ! userExists db authorId then throw (.userNotFoundId authorId)
    if ! userExists db contactId then throw (.userNotFoundId contactId)
    if authorId = contactId then
      throw (.invalidRequest "Author user and contact user cannot be equals".toList)
    let action ← (← relation.member "action").asString
    return (authorId, contactId, action)
  match request with
  | .error e => (.error e, db)
  | .ok (authorId, contactId, action) =>
    RelationsManager.saveRelation db authorId contactId action

/-- The two users of a recommendation or a message, once they are validated. -/
def usersOfRequest (db : DB) (request : Json) : Except Exn (Long × Long) := do
  let fromUserId ← (← request.member "from").asLargestInt
  let toUserId ← (← request.member "to").asLargestInt
  validateUsersOfRequest db fromUserId toUserId
  return (fromUserId, toUserId)

/-- `saveRecommendation`. -/
def saveRecommendation (db : DB) (recommendation : Json) : Except Exn Unit × DB :=
  match usersOfRequest db recommendation with
  | .error e => (.error e, db)
  | .ok (fromUserId, toUserId) =>
    RecommendationsManager.addRecommendation db fromUserId toUserId

/-- `removeRecommendation`. -/
def removeRecommendation (db : DB) (fromUserId toUserId : Long) : Except Exn Unit × DB :=
  match validateUsersOfRequest db fromUserId toUserId with
  | .error e => (.error e, db)
  | .ok _ => RecommendationsManager.removeRecommendation db fromUserId toUserId

/-- `saveMessage`, at the time that the clock shows. -/
def saveMessage (db : DB) (now : Text) (request : Json) : Except Exn Text × DB :=
  let message : Except Exn (Long × Long × Text) := do
    let fromUserId ← (← request.member "from").asLargestInt
    let toUserId ← (← request.member "to").asLargestInt
    let messageToSave ← (← request.member "message").asString
    validateUsersOfRequest db fromUserId toUserId
    return (fromUserId, toUserId, messageToSave)
  match message with
  | .error e => (.error e, db)
  | .ok (fromUserId, toUserId, messageToSave) =>
    MessagesManager.saveMessage db now fromUserId toUserId messageToSave

/-- `getMessages`. -/
def getMessages (db : DB) (fromUserId toUserId : Long) :
    Except Exn (List MessagesManager.Message) := do
  validateUsersOfRequest db fromUserId toUserId
  MessagesManager.getMessages db fromUserId toUserId

/-- `getNotificationTokenByUserId`. -/
def getNotificationTokenByUserId (db : DB) (userId : Long) : Except Exn Text :=
  if ! userExists db userId then .error (.userNotFoundId userId)
  else
    match db.existsKey (key .notificationsToken (toString userId)) with
    | some result => .ok result.asText
    | none => .error (.nonexistentNotificationToken userId)

/-- `setOrUpdateNotificationToken`. -/
def setOrUpdateNotificationToken (db : DB) (request : Json) (userId : Long) :
    Except Exn Unit × DB :=
  let token : Except Exn Text := do
    if ! (← request.isMember "token") then throw (.invalidRequest "Missing token".toList)
    if ! userExists db userId then throw (.userNotFoundId userId)
    (← request.member "token").asString
  match token with
  | .error e => (.error e, db)
  | .ok token => (.ok (), db.putKey (key .notificationsToken (toString userId)) (.text token))

/-! ## The keys that are written -/

variable {db : DB} {other : Text}

/-- A relation writes the lists of contacts alone. -/
theorem existsKey_saveOrUpdateRelation (hother : ∀ rest, other ≠ key .contact rest)
    (relation : Json) :
    (saveOrUpdateRelation db relation).2.existsKey other = db.existsKey other := by
  simp only [saveOrUpdateRelation]
  split
  · rfl
  · exact RelationsManager.existsKey_saveRelation hother _ _ _

/-- A message writes its conversation alone. -/
theorem existsKey_saveMessage
    (hother : ∀ fromUserId toUserId, MessagesManager.getKey fromUserId toUserId ≠ other)
    (now : Text) (request : Json) :
    (saveMessage db now request).2.existsKey other = db.existsKey other := by
  simp only [saveMessage]
  split
  · rfl
  · exact MessagesManager.existsKey_saveMessage (hother _ _) _ _

/-- A notification token is written under its own key alone. -/
theorem existsKey_setOrUpdateNotificationToken
    (hother : ∀ rest, other ≠ key .notificationsToken rest) (request : Json) (userId : Long) :
    (setOrUpdateNotificationToken db request userId).2.existsKey other = db.existsKey other := by
  simp only [setOrUpdateNotificationToken]
  split
  · rfl
  · rw [DB.existsKey_putKey, if_neg (hother _).symm]

/-- A recommendation writes lists of recommendations and profiles alone. -/
theorem existsKey_saveRecommendation (hlist : ∀ rest, other ≠ key .recommendation rest)
    (hrecord : ∀ rest, other ≠ key .userMail rest) (recommendation : Json) :
    (saveRecommendation db recommendation).2.existsKey other = db.existsKey other := by
  unfold saveRecommendation
  split
  · rfl
  · exact RecommendationsManager.existsKey_addRecommendation hlist hrecord _ _

/-- Taking a recommendation back writes lists of recommendations and profiles alone. -/
theorem existsKey_removeRecommendation (hlist : ∀ rest, other ≠ key .recommendation rest)
    (hrecord : ∀ rest, other ≠ key .userMail rest) (fromUserId toUserId : Long) :
    (removeRecommendation db fromUserId toUserId).2.existsKey other = db.existsKey other := by
  unfold removeRecommendation
  split
  · rfl
  · exact RecommendationsManager.existsKey_removeRecommendation hlist hrecord _ _

/-! ## Calls and their outcomes -/

/-- A call of an operation that can write. -/
inductive Call where
  | savePerson (juser : Json) (forceID : Long)
  | updateUser (juser : Json)
  | deletePerson (id : Long)
  | saveOrUpdateRelation (relation : Json)
  | saveRecommendation (recommendation : Json)
  | removeRecommendation (fromUserId toUserId : Long)
  | saveMessage (now : Text) (request : Json)
  | setMessagesAsReceived (fromUserId toUserId : Long)
      (deliveredMessages : List MessagesManager.Message)
  | setOrUpdateNotificationToken (request : Json) (userId : Long)

/-- The id that a call returns, for the calls that return one. -/
abbrev Outcome := Except Exn (Option Long)

/-- An outcome with the id that it holds. -/
def outcome {α : Type} (userId : α → Option Long) (result : Except Exn α × DB) : Outcome × DB :=
  (result.1.map userId, result.2)

/-- Runs a call. -/
def exec (db : DB) : Call → Outcome × DB
  | .savePerson juser forceID => outcome some (savePerson db juser forceID)
  | .updateUser juser => outcome some (updateUser db juser)
  | .deletePerson id => outcome (fun _ => none) (deletePerson db id)
  | .saveOrUpdateRelation relation => outcome (fun _ => none) (saveOrUpdateRelation db relation)
  | .saveRecommendation recommendation =>
    outcome (fun _ => none) (saveRecommendation db recommendation)
  | .removeRecommendation fromUserId toUserId =>
    outcome (fun _ => none) (removeRecommendation db fromUserId toUserId)
  | .saveMessage now request => outcome (fun _ => none) (saveMessage db now request)
  | .setMessagesAsReceived fromUserId toUserId deliveredMessages =>
    outcome (fun _ => none)
      (MessagesManager.setMessagesAsReceived db fromUserId toUserId deliveredMessages)
  | .setOrUpdateNotificationToken request userId =>
    outcome (fun _ => none) (setOrUpdateNotificationToken db request userId)

/-- A call returned iff its operation did. -/
theorem outcome_eq_ok {α : Type} {userId : α → Option Long} {result : Except Exn α × DB}
    {value : Option Long} {next : DB} :
    outcome userId result = (.ok value, next) ↔
      ∃ returned, result = (.ok returned, next) ∧ userId returned = value := by
  obtain ⟨result, after⟩ := result
  cases result with
  | error e => simp [outcome, Except.map]
  | ok returned => simp [outcome, Except.map, and_comm]

/-- A call threw iff its operation did. -/
theorem outcome_eq_error {α : Type} {userId : α → Option Long} {result : Except Exn α × DB}
    {e : Exn} {next : DB} :
    outcome userId result = (.error e, next) ↔ result = (.error e, next) := by
  obtain ⟨result, after⟩ := result
  cases result with
  | error e => simp [outcome, Except.map]
  | ok returned => simp [outcome, Except.map]

/-- A call, whether it returns or throws. -/
def Calls (db : DB) (call : Call) (next : DB) : Prop :=
  (exec db call).2 = next

/-- A call that returns. -/
def Returns (db : DB) (call : Call) (next : DB) : Prop :=
  ∃ result, exec db call = (.ok result, next)

/-- A call together with what it answers. -/
def Answers (db : DB) (answered : Call × Outcome) (next : DB) : Prop :=
  exec db answered.1 = (answered.2, next)

/-- A store that some calls lead to from the empty one. -/
def Reachable (db : DB) : Prop :=
  ∃ calls, Lib.Run Calls ∅ calls db

/-- The store after calls from the empty one. -/
def execAll (calls : List Call) : DB :=
  calls.foldl (fun db call => (exec db call).2) ∅

/-- The store after one more call. -/
theorem execAll_concat (calls : List Call) (call : Call) :
    execAll (calls ++ [call]) = (exec (execAll calls) call).2 := by
  rw [execAll, execAll, List.foldl_append]
  rfl

/-- A call after others, by its result. -/
theorem exec_execAll (calls : List Call) {call : Call} {result : Outcome}
    (h : (exec (execAll calls) call).1 = result) :
    exec (execAll calls) call = (result, execAll (calls ++ [call])) := by
  rw [execAll_concat]
  exact Prod.ext h rfl

/-- What calls from the empty store lead to is reachable. -/
theorem reachable_execAll (calls : List Call) : Reachable (execAll calls) := by
  refine ⟨calls, ?_⟩
  induction calls using List.reverseRecOn with
  | nil => exact .nil
  | append_singleton calls call ih =>
      exact ih.snoc (execAll_concat calls call).symm

/-- Calls from a store, with their answers. -/
def answersFrom : DB → List Call → List (Call × Outcome)
  | _, [] => []
  | db, call :: calls => (call, (exec db call).1) :: answersFrom (exec db call).2 calls

/-- The answers to some calls and one more. -/
theorem answersFrom_append (db : DB) (calls : List Call) (call : Call) :
    answersFrom db (calls ++ [call]) = answersFrom db calls ++
      [(call, (exec (calls.foldl (fun db call => (exec db call).2) db) call).1)] := by
  induction calls generalizing db with
  | nil => rfl
  | cons first calls ih =>
      rw [List.cons_append, answersFrom, ih]
      rfl

/-- Every reachable store is reached by calls that are kept with their answers. -/
theorem Reachable.answered (h : Reachable db) : ∃ answered, Lib.Run Answers ∅ answered db := by
  obtain ⟨calls, hrun⟩ := h
  induction hrun with
  | nil => exact ⟨[], .nil⟩
  | @snoc _ state _ call _ hlast ih =>
      obtain ⟨answered, hanswered⟩ := ih
      have hstep : Answers state (call, (exec state call).1) (exec state call).2 := rfl
      exact ⟨_, hanswered.snoc (hlast ▸ hstep)⟩

/-- Calls from the empty store are a run with their answers. -/
theorem run_answersFrom (calls : List Call) :
    Lib.Run Answers ∅ (answersFrom ∅ calls) (execAll calls) := by
  induction calls using List.reverseRecOn with
  | nil => exact .nil
  | append_singleton calls call ih =>
      rw [answersFrom_append]
      exact ih.snoc (exec_execAll calls rfl)

end TallerII.PersonManager
