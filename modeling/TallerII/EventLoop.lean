import TallerII.Contacts
import TallerII.Events
import TallerII.History
import TallerII.Lib.Printf
import TallerII.Responses

/-!
# The event loop

`ev_handler` handles a request, sends the response in two chunks and compares the body with what
it sent; when they differ, it discards what it sent and handles the request again. The body of a
text is sent as a format of `printf`, so a body with a percent sign is not sent as it is.
-/

namespace TallerII.EventLoop

open Lib Lib.Printf

/-- `struct mbuf`: the memory from `buf` on. -/
structure Mbuf where
  buf : Text
  len : Nat

/-! ## Comparing what was sent -/

/-- The loop of `validBody`, with the rest of both texts read backwards. It reads before the
beginning of what was sent when that is shorter, and its counter is an `int`. -/
def compareBackwards : Nat → Text → Text → Except Exn Bool
  | _, [], _ => .ok true
  | _, _ :: _, [] => .error .undefinedBehaviour
  | i, bodyPointer :: body, bodyToSendPointer :: bodyToSend =>
    if bodyPointer ≠ bodyToSendPointer then .ok false
    else if i + 1 = 2 ^ 31 then .error .undefinedBehaviour
    else compareBackwards (i + 1) body bodyToSend

/-- `MainHelper::validBody`. -/
def validBody (body bodyToSend : Mbuf) : Except Exn Bool :=
  let offset := 7
  if body.buf.length < body.len then .error .undefinedBehaviour
  else compareBackwards 0 (body.buf.take body.len).reverse
    ((bodyToSend.buf.take bodyToSend.len).reverse.drop offset)

/-! ## Handling an event -/

/-- What an event changes: the server, what is to be sent, and the outcomes of `handleRequest`. -/
structure Connection where
  server : Server
  sendMbuf : Text
  handled : List (Except Exn Response)

/-- A computation of the event loop. -/
abbrev Loop (α : Type) := ExceptT Exn (StateM Connection) α

/-- Runs a computation: its outcome, and what it leaves also when it throws. -/
def Loop.serve {α : Type} (loop : Loop α) (connection : Connection) : Except Exn α × Connection :=
  (ExceptT.run loop).run connection

/-- A `try` block with its `catch` clauses. -/
def Loop.handling {α : Type} (loop : Loop α) (handler : Exn → Loop α) : Loop α :=
  ExceptT.mk fun connection =>
    match loop.serve connection with
    | (.error e, next) => (handler e).serve next
    | (.ok value, next) => (.ok value, next)

/-- `mg_send`. -/
def mgSend (text : Text) : Loop Unit :=
  modify fun connection => { connection with sendMbuf := connection.sendMbuf ++ text }

/-- `mg_send_http_chunk`. -/
def mgSendHttpChunk (buf : Text) (len : Nat) : Loop Unit := do
  if buf.length < len then throw .undefinedBehaviour
  mgSend ((Nat.toDigits 16 len).map Char.toUpper ++ ['\r', '\n'])
  mgSend (buf.take len)
  mgSend ['\r', '\n']

/-- `mg_printf_http_chunk`, with one argument for the format. -/
def mgPrintfHttpChunk (fmt : Text) (arg : Nat) : Loop Unit :=
  match expand sizes [arg] (cString fmt) with
  | none => throw .undefinedBehaviour
  | some text => mgSendHttpChunk text text.length

variable (searchHandler : Handler) (httpMessage : HttpMessage)

/-- `handleRequest` of `WebHandler`. -/
def handleRequest (env : Environment) : Loop Response :=
  ExceptT.mk fun connection =>
    let (result, server) :=
      (WebHandler.handleRequest env searchHandler httpMessage).serve connection.server
    (result, { connection with server, handled := connection.handled ++ [result] })

/-- `processMessage`. -/
def processMessage (env : Environment) : Loop Mbuf := do
  let response ← handleRequest searchHandler httpMessage env
  let body : Mbuf := { buf := response.getBody, len := response.bodyLength }
  mgSend (cString response.getHeader)
  if response.hasBinaryContent then mgSendHttpChunk body.buf body.len
  else mgPrintfHttpChunk body.buf body.len
  mgSendHttpChunk [] 0
  return body

/-- The `catch` clause of `ev_handler`: a request for a file goes on to `mg_serve_http`. -/
def serveFile (serveHttp : Text → Text) (e : Exn) : Loop Unit :=
  match e with
  | .specialRequest =>
    modify fun connection => { connection with sendMbuf := serveHttp connection.sendMbuf }
  | e => throw e

/-- `ev_handler` of a request. What comes from outside can be another for the second time; what
`mg_serve_http` leaves to send is a parameter. -/
def evHandler (env again : Environment) (serveHttp : Text → Text) : Loop Unit :=
  Loop.handling (do
    let body ← processMessage searchHandler httpMessage env
    let connection ← get
    let bodyToSend : Mbuf := ⟨connection.sendMbuf, connection.sendMbuf.length⟩
    let valid ← liftExcept (validBody body bodyToSend)
    if ! valid then
      modify fun connection => { connection with sendMbuf := [] }
      discard (processMessage searchHandler httpMessage again)) (serveFile serveHttp)

/-! ## What is sent -/

/-- A comparison that succeeds reads the one text at the end of the other. -/
theorem compareBackwards_eq_true {i : Nat} {body bodyToSend : Text} (hi : i < 2 ^ 31) :
    compareBackwards i body bodyToSend = .ok true ↔
      body <+: bodyToSend ∧ i + body.length < 2 ^ 31 := by
  induction body generalizing i bodyToSend with
  | nil =>
      simp only [compareBackwards, List.nil_prefix, List.length_nil, Nat.add_zero, hi, and_self]
  | cons c body ih =>
      cases bodyToSend with
      | nil => simp [compareBackwards]
      | cons d bodyToSend =>
          rw [compareBackwards, List.cons_prefix_cons, List.length_cons]
          by_cases hsame : c = d
          · rw [if_neg (not_not.mpr hsame)]
            by_cases hlast : i + 1 = 2 ^ 31
            · rw [if_pos hlast]
              constructor
              · intro h
                cases h
              · rintro ⟨-, hshort⟩
                omega
            · rw [if_neg hlast, ih (by omega), Nat.add_right_comm i, Nat.add_assoc]
              simp [hsame]
          · simp [hsame]

/-- The comparison succeeds when the body stands at the end of what was sent. -/
theorem validBody_eq_true {body : Mbuf} {sent framing : Text} (hbody : body.len ≤ body.buf.length)
    (hframing : framing.length = 7) :
    validBody body ⟨sent ++ framing, (sent ++ framing).length⟩ = .ok true ↔
      body.buf.take body.len <:+ sent ∧ body.len < 2 ^ 31 := by
  rw [validBody, if_neg (by omega), compareBackwards_eq_true (by decide), List.take_length,
    List.reverse_append, List.drop_left' (by rw [List.length_reverse, hframing]),
    List.reverse_prefix, List.length_reverse, List.length_take, Nat.min_eq_left hbody,
    Nat.zero_add]

/-- The bytes of the chunk for a response, where they are defined. -/
def payload (response : Response) : Option Text :=
  if response.hasBinaryContent then some (response.getBody.take response.bodyLength)
  else expand sizes [response.bodyLength] (cString response.getBody)

/-- What is sent before the bytes of the chunk. -/
def opening (response : Response) (data : Text) : Text :=
  cString response.getHeader ++ (Nat.toDigits 16 data.length).map Char.toUpper ++ ['\r', '\n']

/-- What is sent behind the bytes: the end of the chunk, and the terminating chunk. -/
def closing : Text :=
  "\r\n0\r\n\r\n".toList

/-- The last chunk with the end of the line before it. -/
theorem closing_eq : closing = '\r' :: '\n' :: "0\r\n\r\n".toList := rfl

section Serving

variable {α β : Type} {connection : Connection}

/-- A value leaves the connection. -/
@[simp] theorem serve_pure (value : α) :
    Loop.serve (pure value) connection = (.ok value, connection) := rfl

/-- So does an exception. -/
@[simp] theorem serve_throw (e : Exn) :
    Loop.serve (throw e : Loop α) connection = (.error e, connection) := rfl

/-- What is sent is put behind what was sent before. -/
@[simp] theorem serve_mgSend (text : Text) :
    (mgSend text).serve connection
      = (.ok (), { connection with sendMbuf := connection.sendMbuf ++ text }) := rfl

/-- One action after another. -/
theorem serve_bind (first : Loop α) (rest : α → Loop β) :
    Loop.serve (first >>= rest) connection
      = match first.serve connection with
        | (.error e, next) => (.error e, next)
        | (.ok value, next) => (rest value).serve next := by
  show (ExceptT.bindCont rest (first.serve connection).1).run (first.serve connection).2 = _
  rcases first.serve connection with ⟨result, next⟩
  cases result <;> rfl

/-- Reading the connection leaves it. -/
@[simp] theorem serve_get :
    Loop.serve get connection = (.ok connection, connection) := rfl

/-- A change of the connection. -/
@[simp] theorem serve_modify (change : Connection → Connection) :
    Loop.serve (modify change) connection = (.ok (), change connection) := rfl

/-- A computation without the connection leaves it. -/
@[simp] theorem serve_liftExcept (result : Except Exn α) :
    Loop.serve (liftExcept result) connection = (result, connection) := by
  cases result <;> rfl

/-- Only the value is dropped. -/
theorem serve_discard (loop : Loop α) :
    Loop.serve (discard loop) connection
      = ((loop.serve connection).1.map fun _ => (), (loop.serve connection).2) := by
  show (ExceptT.run (_ <$> loop)).run connection = _
  rw [ExceptT.run_map]
  rfl

/-- The exception of an action is handled in the connection that the action leaves. -/
theorem serve_handling (loop : Loop α) (handler : Exn → Loop α) :
    (loop.handling handler).serve connection
      = match loop.serve connection with
        | (.error e, next) => (handler e).serve next
        | (.ok value, next) => (.ok value, next) := rfl

/-- A chunk is sent with its length in hexadecimal digits. -/
theorem serve_mgSendHttpChunk {buf : Text} {len : Nat} (h : len ≤ buf.length) :
    (mgSendHttpChunk buf len).serve connection
      = (.ok (), { connection with
          sendMbuf := connection.sendMbuf ++ ((Nat.toDigits 16 len).map Char.toUpper
            ++ ['\r', '\n'] ++ buf.take len ++ ['\r', '\n']) }) := by
  rw [mgSendHttpChunk, if_neg (by omega)]
  simp [serve_bind]

/-- The terminating chunk. -/
theorem serve_mgSendHttpChunk_nil :
    (mgSendHttpChunk [] 0).serve connection
      = (.ok (), { connection with sendMbuf := connection.sendMbuf ++ "0\r\n\r\n".toList }) := by
  have hempty : 0 ≤ ([] : Text).length := Nat.zero_le _
  rw [serve_mgSendHttpChunk hempty]
  rfl

/-- What a format expands to is sent as a chunk. -/
theorem serve_mgPrintfHttpChunk (fmt : Text) (arg : Nat) :
    (mgPrintfHttpChunk fmt arg).serve connection
      = match expand sizes [arg] (cString fmt) with
        | none => (.error .undefinedBehaviour, connection)
        | some text => (mgSendHttpChunk text text.length).serve connection := by
  rw [mgPrintfHttpChunk]
  cases expand sizes [arg] (cString fmt) <;> rfl

/-- Handling a request records its result. -/
theorem serve_handleRequest {env : Environment} {result : Except Exn Response} {next : Server}
    (h : (WebHandler.handleRequest env searchHandler httpMessage).serve connection.server
      = (result, next)) :
    (handleRequest searchHandler httpMessage env).serve connection
      = (result, { connection with
          server := next, handled := connection.handled ++ [result] }) := by
  show (((WebHandler.handleRequest env searchHandler httpMessage).serve connection.server).1,
    ({ connection with
      server :=
        ((WebHandler.handleRequest env searchHandler httpMessage).serve connection.server).2
      handled := connection.handled ++
        [((WebHandler.handleRequest env searchHandler httpMessage).serve connection.server).1] } :
      Connection)) = _
  rw [h]

end Serving

/-- A response is sent with what its payload makes of the body. -/
theorem serve_processMessage {connection : Connection} {env : Environment} {response : Response}
    {next : Server}
    (h : (WebHandler.handleRequest env searchHandler httpMessage).serve connection.server
      = (.ok response, next)) (hsized : response.Sized) :
    (processMessage searchHandler httpMessage env).serve connection
      = match payload response with
        | none => (.error .undefinedBehaviour, {
            server := next
            sendMbuf := connection.sendMbuf ++ cString response.getHeader
            handled := connection.handled ++ [.ok response] })
        | some data => (.ok ⟨response.getBody, response.bodyLength⟩, {
            server := next
            sendMbuf := connection.sendMbuf ++ opening response data ++ data ++ closing
            handled := connection.handled ++ [.ok response] }) := by
  rw [processMessage, serve_bind, serve_handleRequest searchHandler httpMessage h]
  cases hbinary : response.hasBinaryContent with
  | true =>
      have hbytes : response.bodyLength ≤ response.getBody.length := by
        rw [Response.Sized, if_pos hbinary] at hsized
        rw [Response.getBody, if_pos hbinary]
        exact hsized
      have hlength : (response.getBody.take response.bodyLength).length = response.bodyLength :=
        (List.length_take ..).trans (Nat.min_eq_left hbytes)
      simp only [payload, serve_bind, serve_mgSend, hbinary, if_true,
        serve_mgSendHttpChunk hbytes,
        serve_mgSendHttpChunk_nil, serve_pure]
      simp only [opening, closing_eq, hlength, List.append_assoc, List.cons_append,
        List.nil_append]
  | false =>
      simp only [payload, serve_bind, serve_mgSend, hbinary, serve_mgPrintfHttpChunk,
        Bool.false_eq_true, if_false]
      -- a text goes through the format once more when it is sent
      cases expand sizes [response.bodyLength] (cString response.getBody) with
      | none => rfl
      | some data =>
          simp only [serve_mgSendHttpChunk (Nat.le_refl _), serve_mgSendHttpChunk_nil, serve_pure]
          simp only [opening, closing_eq, List.take_length, List.append_assoc, List.cons_append,
            List.nil_append]

/-! ## Handling a request once -/

/-- The body of a response arrives as it is, and is short enough to be compared. -/
def Arrives (response : Response) : Prop :=
  response.bodyLength < 2 ^ 31 ∧
    (response.hasBinaryContent = true ∨ '%' ∉ cString response.body)

/-- The C string is the front of the memory. -/
theorem take_length_cString (memory : Text) :
    memory.take (cString memory).length = cString memory :=
  (List.prefix_iff_eq_take.mp (List.takeWhile_prefix _)).symm

/-- A text is the format of its own chunk. -/
theorem payload_text {response : Response} (hsized : response.Sized)
    (htext : response.hasBinaryContent = false) :
    response.getBody.take response.bodyLength = cString response.body ∧
      payload response = expand sizes [response.bodyLength] (cString response.body) := by
  rw [Response.Sized, htext] at hsized
  have hlength : response.bodyLength = (cString response.body).length := hsized
  have hbody : response.getBody = response.body := by
    rw [Response.getBody, htext]
    rfl
  refine ⟨by rw [hbody, hlength, take_length_cString], ?_⟩
  rw [payload, htext, hbody]
  rfl

/-- What was sent ends with the body iff the body is sent as it is. -/
theorem suffix_sent_iff {response : Response} {data sent : Text} (hsized : response.Sized)
    (hdata : payload response = some data) :
    response.getBody.take response.bodyLength <:+ sent ++ opening response data ++ data ↔
      response.hasBinaryContent = true ∨ '%' ∉ cString response.body := by
  cases hbinary : response.hasBinaryContent with
  | true =>
      rw [payload, if_pos hbinary] at hdata
      cases hdata
      exact iff_of_true (List.suffix_append _ _) (.inl rfl)
  | false =>
      obtain ⟨hbody, hpayload⟩ := payload_text hsized hbinary
      rw [hpayload] at hdata
      have hframe : sent ++ opening response data ++ data
          = (sent ++ (cString response.getHeader ++ (Nat.toDigits 16 data.length).map Char.toUpper
            ++ ['\r'])) ++ '\n' :: data := by
        simp [opening]
      rw [hframe, hbody, suffix_framed_iff (by decide) hdata]
      simp

/-- Handling a request adds its outcome, also when it throws. -/
theorem handled_processMessage {searchHandler : Handler} (hsearch : searchHandler.Sized)
    (httpMessage : HttpMessage) (env : Environment) (connection : Connection) :
    ∃ result, ((processMessage searchHandler httpMessage env).serve connection).2.handled
      = connection.handled ++ [result] := by
  rcases hserve : (WebHandler.handleRequest env searchHandler httpMessage).serve connection.server
    with ⟨e | response, next⟩
  · refine ⟨.error e, ?_⟩
    rw [processMessage, serve_bind, serve_handleRequest searchHandler httpMessage hserve]
  · refine ⟨.ok response, ?_⟩
    rw [serve_processMessage searchHandler httpMessage hserve
      (sized_handleRequest env hsearch httpMessage _ _ _ hserve)]
    cases payload response <;> rfl

/-- The outcome of an event, by the outcome of its request. -/
def outcome : Except Exn Response → Except Exn Unit
  | .ok _ => .ok ()
  | .error .specialRequest => .ok ()
  | .error e => .error e

/-- An event runs its request once: it leaves what the first run left, and no other outcome. -/
def RunsOnce (env again : Environment) (serveHttp : Text → Text) (connection : Connection)
    (result : Except Exn Response) (next : Server) : Prop :=
  ∃ sent, (evHandler searchHandler httpMessage env again serveHttp).serve connection
    = (outcome result, {
        server := next
        sendMbuf := sent
        handled := connection.handled ++ [result] })

/-- The comparison fails only by reading where it must not. -/
theorem compareBackwards_eq_error {i : Nat} {body bodyToSend : Text} {e : Exn}
    (h : compareBackwards i body bodyToSend = .error e) : e = .undefinedBehaviour := by
  induction body generalizing i bodyToSend with
  | nil => cases h
  | cons c body ih =>
      cases bodyToSend with
      | nil =>
          cases h
          rfl
      | cons d bodyToSend =>
          rw [compareBackwards] at h
          split at h
          · cases h
          split at h
          · cases h
            rfl
          · exact ih h

/-- So does the check of the body. -/
theorem validBody_eq_error {body bodyToSend : Mbuf} {e : Exn}
    (h : validBody body bodyToSend = .error e) : e = .undefinedBehaviour := by
  unfold validBody at h
  simp only at h
  split at h
  · cases h
    rfl
  · exact compareBackwards_eq_error h

/-- Serving a file adds no outcome. -/
theorem handled_serveFile (loop : Loop Unit) (serveHttp : Text → Text) (connection : Connection) :
    ((loop.handling (serveFile serveHttp)).serve connection).2.handled
      = (loop.serve connection).2.handled := by
  rw [serve_handling]
  rcases loop.serve connection with ⟨e | value, next⟩
  · cases e <;> rfl
  · rfl

/-- A request whose response was sent is handled again iff the comparison fails. -/
theorem runsOnce_iff {searchHandler : Handler} (hsearch : searchHandler.Sized)
    {httpMessage : HttpMessage} {env again : Environment} {serveHttp : Text → Text}
    {connection after : Connection} {response : Response} {body : Mbuf}
    (h : (processMessage searchHandler httpMessage env).serve connection = (.ok body, after))
    (hafter : after.handled = connection.handled ++ [.ok response]) :
    RunsOnce searchHandler httpMessage env again serveHttp connection
      (.ok response) after.server ↔
      validBody body ⟨after.sendMbuf, after.sendMbuf.length⟩ = .ok true := by
  rcases hvalid : validBody body ⟨after.sendMbuf, after.sendMbuf.length⟩ with e | valid
  · obtain rfl := validBody_eq_error hvalid
    refine iff_of_false ?_ (by simp)
    rintro ⟨sent, hsame⟩
    rw [evHandler, serve_handling, serve_bind, h] at hsame
    simp only [serve_bind, serve_get, serve_liftExcept, hvalid] at hsame
    cases congrArg Prod.fst hsame
  cases valid with
  | true =>
      refine iff_of_true ⟨after.sendMbuf, ?_⟩ rfl
      rw [evHandler, serve_handling, serve_bind, h]
      simp only [serve_bind, serve_get, serve_liftExcept, hvalid, ← hafter]
      rfl
  | false =>
      -- Whatever the second time comes to, its outcome is added to the first one.
      obtain ⟨result, hresult⟩ := handled_processMessage hsearch httpMessage again
        { after with sendMbuf := [] }
      refine iff_of_false ?_ (by simp)
      rintro ⟨sent, hsame⟩
      have htwice := congrArg (fun served => served.2.handled) hsame
      simp only [evHandler, handled_serveFile, serve_bind, h, serve_get, serve_liftExcept, hvalid,
        Bool.not_false, if_true, serve_modify, serve_discard] at htwice
      rw [hresult, ← hafter] at htwice
      exact List.cons_ne_nil _ _ (List.append_right_eq_self.mp htwice)

/-- The length that is declared is there. -/
theorem length_getBody {response : Response} (h : response.Sized) :
    response.bodyLength ≤ response.getBody.length := by
  unfold Response.Sized at h
  unfold Response.getBody
  split at h
  · rename_i hbinary
    rwa [if_pos hbinary]
  · rename_i htext
    rw [if_neg htext, h]
    exact (List.takeWhile_prefix _).length_le

/-- What is sent of a response is compared with success iff its body arrives as it is. -/
theorem validBody_sent_iff {searchHandler : Handler} {httpMessage : HttpMessage}
    {env : Environment}
    {connection : Connection} {response : Response} {next : Server} (hsized : response.Sized)
    (h : (WebHandler.handleRequest env searchHandler httpMessage).serve connection.server
      = (.ok response, next)) :
    (∃ body after, (processMessage searchHandler httpMessage env).serve connection
        = (.ok body, after) ∧
      validBody body ⟨after.sendMbuf, after.sendMbuf.length⟩ = .ok true) ↔ Arrives response := by
  rw [serve_processMessage searchHandler httpMessage h hsized]
  cases hdata : payload response with
  | none =>
      refine iff_of_false (fun ⟨_, _, hserved, _⟩ => by cases hserved) ?_
      rintro ⟨-, hbinary | hplain⟩
      · rw [payload, if_pos hbinary] at hdata
        cases hdata
      · cases hbinary : response.hasBinaryContent with
        | true =>
            rw [payload, if_pos hbinary] at hdata
            cases hdata
        | false =>
            rw [(payload_text hsized hbinary).2, expand_of_not_mem _ hplain] at hdata
            cases hdata
  | some data =>
      have hcompared : validBody ⟨response.getBody, response.bodyLength⟩
          ⟨connection.sendMbuf ++ opening response data ++ data ++ closing,
            (connection.sendMbuf ++ opening response data ++ data ++ closing).length⟩ = .ok true ↔
          Arrives response := by
        rw [validBody_eq_true (length_getBody hsized) rfl, suffix_sent_iff hsized hdata, and_comm,
          Arrives]
      rw [← hcompared]
      constructor
      · rintro ⟨body, after, hserved, hvalid⟩
        cases hserved
        exact hvalid
      · exact fun hvalid => ⟨_, _, rfl, hvalid⟩

/-- The event handles the request once exactly when the body arrives. -/
theorem runsOnce_iff_arrives {searchHandler : Handler} (hsearch : searchHandler.Sized)
    {httpMessage : HttpMessage} {env again : Environment} {serveHttp : Text → Text}
    {connection : Connection} {result : Except Exn Response} {next : Server}
    (h : (WebHandler.handleRequest env searchHandler httpMessage).serve connection.server
      = (result, next)) :
    RunsOnce searchHandler httpMessage env again serveHttp connection result next ↔
      ∀ response, result = .ok response → Arrives response := by
  cases result with
  | error e =>
      refine iff_of_true ?_ (by simp)
      rw [RunsOnce, evHandler, serve_handling, serve_bind, processMessage, serve_bind,
        serve_handleRequest searchHandler httpMessage h]
      cases e <;> exact ⟨_, rfl⟩
  | ok response =>
      have hsized := sized_handleRequest env hsearch httpMessage _ _ _ h
      have hvalid := @validBody_sent_iff searchHandler httpMessage env _ _ _ hsized h
      have hprocessed := serve_processMessage searchHandler httpMessage h hsized
      simp only [Except.ok.injEq, forall_eq']
      cases hdata : payload response with
      | none =>
          rw [hdata] at hprocessed
          -- the expansion of the format is undefined, so nothing is sent
          refine iff_of_false ?_ ?_
          · rintro ⟨sent, hsame⟩
            rw [evHandler, serve_handling, serve_bind, hprocessed] at hsame
            cases congrArg Prod.fst hsame
          · intro harrives
            obtain ⟨_, _, hserved, -⟩ := hvalid.mpr harrives
            rw [hprocessed] at hserved
            cases hserved
      | some data =>
          rw [hdata] at hprocessed
          refine (runsOnce_iff hsearch hprocessed rfl).trans ?_
          rw [← hvalid]
          constructor
          · exact fun hsame => ⟨_, _, hprocessed, hsame⟩
          · rintro ⟨_, _, hserved, hsame⟩
            rw [hprocessed] at hserved
            cases hserved
            exact hsame

/-! ## Sending a message -/

section Messages

open Handler MessagesManager SessionManager

/-- Changes of tokens leave conversations. -/
theorem getMessages_of_onlyTokens {db next : DB} (h : OnlyTokens db next)
    (fromUserId toUserId : Long) :
    MessagesManager.getMessages next fromUserId toUserId
      = MessagesManager.getMessages db fromUserId toUserId := by
  rw [MessagesManager.getMessages, h _ fun rest => getKey_ne_key, MessagesManager.getMessages]

/-- A message is saved behind the messages of its users. -/
theorem saveMessage_eq_ok {db next : DB} {now saved : Text} {request : Json}
    (h : PersonManager.saveMessage db now request = (.ok saved, next)) :
    ∃ fromUserId toUserId messages message,
      MessagesManager.getMessages db fromUserId toUserId = .ok messages ∧
      MessagesManager.getMessages next fromUserId toUserId = .ok (messages ++ [message]) := by
  simp only [PersonManager.saveMessage] at h
  split at h
  · cases h
  rename_i fromUserId toUserId text hread
  simp only [MessagesManager.saveMessage] at h
  split at h
  · cases h
  rename_i messages hmessages
  cases h
  exact ⟨fromUserId, toUserId, messages, _, hmessages, by
    rw [getMessages_saveConversation, if_pos rfl]⟩

/-- A notification changes nothing. -/
theorem serve_sendNotification (env : Environment) (saved : Text) (server : Server) :
    ((MessagesHandler.sendNotification env saved).serve server).2 = server := by
  have hquery (operation : DB → Except Exn Unit) (handler : Exn → Except Exn Unit) :
      (((Action.query operation).handling handler).serve server).2 = server := by
    rw [Action.serve_handling, Action.serve_query]
    cases operation server.db <;> rfl
  exact hquery _ _

/-- A message that is sent with success is added to one conversation. -/
theorem handlePutRequest_appends {env : Environment} {session : Option Session}
    {httpMessage : HttpMessage} {url : Text} {server next : Server} {response : Response}
    (h : (MessagesHandler.handlePutRequest env session httpMessage url).serve server
      = (.ok response, next)) (hsuccessful : response.IsSuccessful) :
    ∃ fromUserId toUserId messages message,
      MessagesManager.getMessages server.db fromUserId toUserId = .ok messages ∧
      MessagesManager.getMessages next.db fromUserId toUserId = .ok (messages ++ [message]) := by
  rw [MessagesHandler.handlePutRequest, Action.serve_handling] at h
  split at h
  · exact absurd hsuccessful (not_isSuccessful_answered (congrArg Prod.fst h))
  rename_i hserved
  rw [h] at hserved
  simp only [Action.serve_bind_eq_ok, Action.serve_ofExcept, Action.serve_onStore,
    Action.serve_pure, Prod.mk.injEq, and_assoc, exists_and_left, exists_eq_left'] at hserved
  obtain ⟨request, -, -, -, -, -, -, -, -, -, -, -, -, -, saved, hsaved, _, between, hsent, -,
      rfl⟩ :=
    hserved
  obtain rfl : _ = between := (serve_sendNotification env saved _).symm.trans
    (congrArg Prod.snd hsent)
  exact saveMessage_eq_ok (Prod.ext hsaved rfl)

/-- One run of a successful `PUT` of a message adds one message to one conversation. -/
theorem handleRequest_appends {env : Environment} {searchHandler : Handler}
    {httpMessage : HttpMessage} {server next : Server} {response : Response}
    (h : (WebHandler.handleRequest env searchHandler httpMessage).serve server
      = (.ok response, next)) (hsuccessful : response.IsSuccessful)
    (hroute : WebHandler.route httpMessage.uri = .messages)
    (hmethod : httpMessage.method = "PUT".toList) :
    ∃ fromUserId toUserId messages message,
      MessagesManager.getMessages server.db fromUserId toUserId = .ok messages ∧
      MessagesManager.getMessages next.db fromUserId toUserId = .ok (messages ++ [message]) := by
  have hhandler : WebHandler.handlerOf env searchHandler (WebHandler.route httpMessage.uri)
      = some (MessagesHandler.handler env) := by
    rw [hroute]
    rfl
  rw [serve_put hhandler hmethod rfl] at h
  rcases serve_controlAccess env httpMessage server with
    ⟨e, -, haccess⟩ | ⟨session, -, haccess⟩
  · rw [haccess] at h
    cases eq_ok_of_shown (Prod.mk.inj h).1 hsuccessful
  · rw [haccess] at h
    obtain ⟨hanswer, hnext⟩ := Prod.mk.inj h
    have hserved : (MessagesHandler.handlePutRequest env (some session) httpMessage
        httpMessage.uri).serve { server with
          db := putToken env.clock server.db env.readings.updated session.token session.userMail
            session.userId } = (.ok response, next) :=
      Prod.ext (eq_ok_of_shown hanswer hsuccessful) hnext
    obtain ⟨fromUserId, toUserId, messages, message, hbefore, hafter⟩ :=
      handlePutRequest_appends hserved hsuccessful
    rw [getMessages_of_onlyTokens (onlyTokens_putToken _ _ _ _ _ _)] at hbefore
    exact ⟨fromUserId, toUserId, messages, message, hbefore, hafter⟩

end Messages

/-! ## Requests of the server -/

/-- A request is handled once iff its handling throws or the body of its response arrives as it
is: that is when the comparison succeeds. So a message whose response arrives is added once. -/
theorem evHandler_once {searchHandler : Handler} (hsearch : searchHandler.Sized)
    {httpMessage : HttpMessage} {env again : Environment} {serveHttp : Text → Text}
    {connection : Connection} {result : Except Exn Response} {next : Server}
    (h : (WebHandler.handleRequest env searchHandler httpMessage).serve connection.server
      = (result, next)) :
    (RunsOnce searchHandler httpMessage env again serveHttp connection result next ↔
      ∀ response, result = .ok response → Arrives response) ∧
    ∀ response, result = .ok response →
      ((∃ body after, (processMessage searchHandler httpMessage env).serve connection
          = (.ok body, after) ∧
        validBody body ⟨after.sendMbuf, after.sendMbuf.length⟩ = .ok true) ↔ Arrives response) ∧
      (WebHandler.route httpMessage.uri = .messages → httpMessage.method = "PUT".toList →
        response.IsSuccessful →
        ∃ fromUserId toUserId messages message,
          MessagesManager.getMessages connection.server.db fromUserId toUserId = .ok messages ∧
          MessagesManager.getMessages next.db fromUserId toUserId
            = .ok (messages ++ [message])) := by
  refine ⟨runsOnce_iff_arrives hsearch h, ?_⟩
  rintro response rfl
  refine ⟨validBody_sent_iff (sized_handleRequest env hsearch httpMessage _ _ _ h) h, ?_⟩
  intro hroute hmethod hsuccessful
  exact handleRequest_appends h hsuccessful hroute hmethod

/-- Two users, of whom one is logged in. -/
def chatting : Server where
  db := SessionManager.putToken SessionManager.stoppedClock
    (PersonManager.execAll (PersonManager.twoUsersAnd [])) 0 ['t'] ['a'] 1
  files _ := none

/-- The body of a message. -/
def messageBody (text : String) : Text :=
  "\x7b\"from\":1,\"message\":\"".toList ++ text.toList ++ "\",\"to\":2\x7d".toList

/-- The user sends a message to the other one. -/
def putMessage (text : String) : HttpMessage where
  method := "PUT".toList
  uri := "/messages".toList
  queryString := []
  authorization := some ['t']
  body := messageBody text
  bodyLen := (messageBody text).length

/-- The message that is saved. -/
def savedMessage (text : String) : MessagesManager.Message where
  fromUserId := 1
  toUserId := 2
  message := text.toList
  timestamp := []
  state := MessagesManager.stateSent

/-- The response to a message. -/
def sentResponse (text : String) : Response :=
  (({} : Response).setSuccessfulHeader).setBody (savedMessage text).serializeMe.toStyledString

/-- What handling the message leaves behind. -/
def afterHola : Server :=
  ((WebHandler.handleRequest Environment.quiet ConversationsHandler.handler
    (putMessage "hola")).serve
    chatting).2

/-- The message is saved. -/
theorem serve_putMessage :
    (WebHandler.handleRequest Environment.quiet ConversationsHandler.handler
      (putMessage "hola")).serve
      chatting = (.ok (sentResponse "hola"), afterHola) := by
  have hsaved : ((WebHandler.handleRequest Environment.quiet ConversationsHandler.handler
      (putMessage "hola")).serve chatting).1 = .ok (sentResponse "hola") := by
    decide +kernel
  rw [afterHola, ← hsaved]

/-- A message without a percent sign. -/
theorem evHandler_once_hola :
    RunsOnce ConversationsHandler.handler
      (putMessage "hola") Environment.quiet Environment.quiet id
      ⟨chatting, [], []⟩ (.ok (sentResponse "hola")) afterHola := by
  refine (@evHandler_once _ ConversationsHandler.sized _ _ _ _ ⟨chatting, [], []⟩ _ _
    serve_putMessage).1.mpr ?_
  rintro response hresponse
  cases hresponse
  constructor
  · decide +kernel
  · decide +kernel

/-- What the event leaves of a message. -/
def afterSending (text : String) : Connection :=
  ((evHandler ConversationsHandler.handler (putMessage text) Environment.quiet Environment.quiet
    id).serve
    ⟨chatting, [], []⟩).2

/-- A message with percent signs is handled twice, and is added twice. -/
theorem putMessage_twice :
    (afterSending "100%%").handled = [.ok (sentResponse "100%%"), .ok (sentResponse "100%%")] ∧
      MessagesManager.getMessages chatting.db 1 2 = .ok [] ∧
      MessagesManager.getMessages (afterSending "100%%").server.db 1 2
        = .ok [savedMessage "100%%", savedMessage "100%%"] := by
  decide +kernel

end TallerII.EventLoop
