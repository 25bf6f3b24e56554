import TallerII.Conversacion

/-!
# Paging through a conversation

The app and the server together: requests that the app sends, that the server answers later with
the window it is asked for, and that are delivered later still or never. The app computes a window
from a page number, which only the scroll listener turns, and from `mOffset`, which a reload sets
back. `paged_of_run` says that in every run of the steps that `Aligned` describes the messages
listed are the newest ones of the server and no window is empty.
-/

namespace TallerII.ConversacionActivity

/-! ## The app and the server -/

/-- What the app asks for: the latest page, or a window of older messages. -/
inductive Request where
  | ultimos
  | mas (first last : Nat)
deriving DecidableEq

/-- A request under way, with its answer once the server has handled it. -/
structure Flight where
  request : Request
  answer : Option MessagesResponse := none
deriving DecidableEq

/-- The conversation as the server keeps it, the oldest message first, the app, and the requests
under way. -/
structure System where
  server : List Message
  app : Conversacion
  flights : List Flight := []
deriving DecidableEq

/-- The messages with the numbers from `first` to `last`, counted from the newest one. -/
def window (server : List Message) (first last : Nat) : List Message :=
  (server.take (server.length + 1 - first)).drop (server.length - last)

/-- What the server answers. -/
def answerOf (server : List Message) : Request → MessagesResponse
  | .ultimos =>
      { messages := window server 1 cantMensajesPorPage, totalCount := some server.length }
  | .mas first last => { messages := window server first last, totalCount := some server.length }

/-- What the app does with an answer. -/
def onResponse (app : Conversacion) (response : MessagesResponse) : Request → Conversacion
  | .ultimos => onUltimosMensajes app (some response)
  | .mas _ _ => onMasMensajes app (some response)

namespace System

/-- What can happen. A new message of the conversation is saved by the server and passed to the
app; another one that the app is passed is of another conversation or was passed to it before. A
request can fail at any time. -/
inductive Event where
  | resume
  | scroll (firstVisibleItem visibleItemCount totalItemCount : Nat)
  | nuevoMensaje (message : Message)
  | otroMensaje (message : Message)
  | answered (index : Nat)
  | delivered (index : Nat)
  | failed (index : Nat)

/-- The system after an event, when the event can happen. -/
def exec (system : System) : Event → Option System
  | .resume => some { system with flights := system.flights ++ [{ request := .ultimos }] }
  | .scroll firstVisibleItem visibleItemCount totalItemCount =>
    let (app, asked) := onScroll system.app firstVisibleItem visibleItemCount totalItemCount
    some { system with
      app
      flights := system.flights ++
        asked.toList.map fun (first, last) => { request := .mas first last } }
  | .nuevoMensaje message =>
    if message.Between system.app.connectedUserID system.app.corresponsalID then
      some { system with
        server := system.server ++ [message]
        app := (recibirMensajesNuevos system.app message).1 }
    else none
  | .otroMensaje message =>
    some { system with app := (recibirMensajesNuevos system.app message).1 }
  | .answered index =>
    match system.flights[index]? with
    | some { request, answer := none } =>
      some { system with
        flights := system.flights.set index
          { request, answer := some (answerOf system.server request) } }
    | _ => none
  | .delivered index =>
    match system.flights[index]? with
    | some { request, answer := some response } =>
      some { system with
        app := onResponse system.app response request
        flights := system.flights.eraseIdx index }
    | _ => none
  | .failed index =>
    if index < system.flights.length then
      some { system with flights := system.flights.eraseIdx index }
    else none

/-- An event that happens. -/
def Step (system : System) (event : Event) (next : System) : Prop :=
  exec system event = some next

/-- The conversation is opened, with what the server has. -/
def start (server : List Message) (connectedUserID corresponsalID : Long) : System where
  server := server
  app := opened connectedUserID corresponsalID

/-- The requests under way. -/
def requests (system : System) : List Request :=
  system.flights.map Flight.request

/-- The number of messages listed. -/
def listed (system : System) : Nat :=
  system.app.chatMessages.length

/-! ## Without gaps -/

/-- The messages listed are the newest ones that the server has, each once, and every window that
is asked for has a first message no later than its last. -/
structure Paged (system : System) : Prop where
  contiguous : ∃ older, system.app.chatMessages.Perm (system.server.drop older)
  windows : ∀ first last, .mas first last ∈ system.requests → first ≤ last

/-- A scroll near the end of the list asks for older messages: the listener is not waiting for a
page and the server has more than the pages it has turned. -/
def Due (app : Conversacion) (firstVisibleItem visibleItemCount totalItemCount : Nat) : Prop :=
  let listener := app.mEndlessScrollListener.turn totalItemCount
  listener.loading = false ∧ firstVisibleItem ≠ 0 ∧
    (totalItemCount : Int) - visibleItemCount ≤ firstVisibleItem + 3 ∧
    listener.currentPage * cantMensajesPorPage < app.maxMensaje

/-- The steps that keep the pages aligned. A scroll that asks for older messages finds the page
and the offset at the number of messages listed, more messages on the server, and no older request
under way; a new message is newer than the first one listed, so that it is counted, and arrives
while the server has handled every older request under way and no reload; any other message fails
a test of the app; and a reload and an older request are only under way together when the latest
page is all that is listed. -/
def Aligned (system : System) : Event → Prop
  | .resume => (∃ first last, .mas first last ∈ system.requests) →
      system.listed = cantMensajesPorPage
  | .scroll firstVisibleItem visibleItemCount totalItemCount =>
      Due system.app firstVisibleItem visibleItemCount totalItemCount →
        (system.app.mEndlessScrollListener.turn totalItemCount).currentPage * cantMensajesPorPage
            + system.app.mOffset = system.listed ∧
          system.listed < system.app.maxMensaje ∧
          (∀ first last, .mas first last ∉ system.requests) ∧
          (.ultimos ∈ system.requests → system.listed = cantMensajesPorPage)
  | .nuevoMensaje message => isNewer system.app message ∧
      (∀ first last, ⟨.mas first last, none⟩ ∉ system.flights) ∧
      (∀ response, ⟨.ultimos, some response⟩ ∉ system.flights) ∧
      ∀ first last, .mas first last ∈ system.requests → .ultimos ∉ system.requests
  | .otroMensaje message =>
      ¬ (isForConversation system.app message ∧ isNewer system.app message)
  | _ => True

end System

/-! ## Windows -/

namespace System

variable {server : List Message}

/-- The latest page is what the server has beyond the messages before it. -/
theorem window_one (server : List Message) (last : Nat) :
    window server 1 last = server.drop (server.length - last) := by
  rw [window, Nat.add_sub_cancel, List.take_length]

/-- What loading the latest page lists. -/
theorem perm_onUltimosMensajes (app : Conversacion) (server : List Message) :
    (onUltimosMensajes app (some (answerOf server .ultimos))).chatMessages.Perm
      (server.drop (server.length - cantMensajesPorPage)) := by
  show (sort (window server 1 cantMensajesPorPage)).Perm _
  rw [← window_one]
  exact sort_perm _

/-- What loading messages that come right before those listed lists. -/
theorem perm_onMasMensajes {app : Conversacion} {response : MessagesResponse} {middle older : Nat}
    (happ : app.chatMessages.Perm (server.drop middle)) (hle : older ≤ middle)
    (hmiddle : middle ≤ server.length)
    (hresponse : response.messages = (server.take middle).drop older) :
    (onMasMensajes app (some response)).chatMessages.Perm (server.drop older) := by
  have htake : (server.take middle).length = middle := by
    rw [List.length_take]
    omega
  have hsplit : (server.take middle ++ server.drop middle).drop older
      = (server.take middle).drop older ++ server.drop middle :=
    List.drop_append_of_le_length (by rw [htake]; exact hle)
  rw [List.take_append_drop] at hsplit
  show (appendearMensajes app.chatMessages (sort response.messages)).Perm _
  rw [appendearMensajes_eq, hsplit, ← hresponse]
  exact (sort_perm _).append happ

/-! ## The invariant -/

/-- A response with the messages right before the `listed` newest ones, down to some older one. -/
structure Precedes (server : List Message) (listed : Nat) (response : MessagesResponse) :
    Prop where
  messages : ∃ older ≤ server.length - listed,
    response.messages = (server.take (server.length - listed)).drop older
  count : ∃ total ≤ server.length, response.totalCount = some total

/-- A new message is the newest one and moves nothing that is before those listed. -/
theorem Precedes.append {server : List Message} {listed : Nat} {response : MessagesResponse}
    (h : Precedes server listed response) (message : Message) :
    Precedes (server ++ [message]) (listed + 1) response := by
  obtain ⟨⟨older, holder, hmessages⟩, total, htotal, hresponse⟩ := h
  have hlength : (server ++ [message]).length = server.length + 1 := by
    rw [List.length_append, List.length_singleton]
  have hbefore : (server ++ [message]).length - (listed + 1) = server.length - listed := by
    omega
  refine ⟨⟨older, ?_, ?_⟩, total, ?_, hresponse⟩
  · rwa [hbefore]
  · rw [hbefore, List.take_append_of_le_length (Nat.sub_le _ _)]
    exact hmessages
  · omega

/-- What is known of a request under way when the `listed` newest messages are listed: a window
that is not answered yet begins right before these, and an answer would still be right now. -/
def Fits (server : List Message) (listed : Nat) : Flight → Prop
  | ⟨.ultimos, none⟩ => True
  | ⟨.ultimos, some response⟩ => response = answerOf server .ultimos
  | ⟨.mas first last, none⟩ => first = listed + 1 ∧ listed < last ∧ last ≤ server.length
  | ⟨.mas first last, some response⟩ => first ≤ last ∧ Precedes server listed response

/-- What the aligned steps keep: the messages listed are the newest ones, the requests under way
fit them, only one of these is for older messages, and with a reload only the latest page is
listed. -/
structure Inv (system : System) : Prop where
  listed_le : system.listed ≤ system.server.length
  block : system.app.chatMessages.Perm
    (system.server.drop (system.server.length - system.listed))
  count : system.app.maxMensaje ≤ system.server.length
  fits : ∀ flight ∈ system.flights, Fits system.server system.listed flight
  single : (system.requests.filter (· ≠ .ultimos)).length ≤ 1
  reload : (∃ first last, .mas first last ∈ system.requests) → .ultimos ∈ system.requests →
    system.listed = cantMensajesPorPage

variable {system next : System}

/-- A request under way is one of the requests. -/
theorem request_mem {flight : Flight} (hflight : flight ∈ system.flights) :
    flight.request ∈ system.requests :=
  List.mem_map_of_mem hflight

/-- A system that keeps the invariant is paged. -/
theorem Inv.paged (h : Inv system) : Paged system := by
  refine ⟨⟨_, h.block⟩, ?_⟩
  intro first last hrequest
  obtain ⟨⟨request, answer⟩, hflight, rfl⟩ := List.mem_map.mp hrequest
  cases answer with
  | none =>
      obtain ⟨hfirst, hlast, -⟩ := h.fits _ hflight
      omega
  | some response => exact (h.fits _ hflight).1

/-- The system starts with the invariant. -/
theorem inv_start (server : List Message) (connectedUserID corresponsalID : Long) :
    Inv (start server connectedUserID corresponsalID) where
  listed_le := Nat.zero_le _
  block := by simp [start, opened, listed]
  count := Nat.zero_le _
  fits := by simp [start]
  single := by simp [start, requests]
  reload := by simp [start, requests]

/-- Fewer requests under way keep the invariant. -/
theorem Inv.of_sublist (h : Inv system) {flights : List Flight}
    (hsub : flights.Sublist system.flights) : Inv { system with flights } := by
  have hrequests : ({ system with flights } : System).requests.Sublist system.requests :=
    hsub.map _
  refine { h with fits := ?_, single := ?_, reload := ?_ }
  · intro flight hflight
    exact h.fits flight (hsub.mem hflight)
  · exact (hrequests.filter _).length_le.trans h.single
  · rintro ⟨first, last, hmem⟩ hreload
    exact h.reload ⟨first, last, hrequests.mem hmem⟩ (hrequests.mem hreload)

/-- What `cargarMasMensajes` asks for. -/
theorem cargarMasMensajes_eq_some {app : Conversacion} {page : Nat} {asked : Nat × Nat} :
    cargarMasMensajes app page false = some asked ↔
      page * cantMensajesPorPage < app.maxMensaje ∧
        asked = (page * cantMensajesPorPage + 1 + app.mOffset,
          min app.maxMensaje ((page + 1) * cantMensajesPorPage + app.mOffset)) := by
  have hmin : (if app.maxMensaje < (page + 1) * cantMensajesPorPage + app.mOffset
      then app.maxMensaje else (page + 1) * cantMensajesPorPage + app.mOffset)
      = min app.maxMensaje ((page + 1) * cantMensajesPorPage + app.mOffset) := by
    split <;> omega
  rw [cargarMasMensajes]
  split
  · rename_i hstop
    have hle : app.maxMensaje ≤ page * cantMensajesPorPage := by simpa using hstop
    exact ⟨fun h => (Option.some_ne_none _ h.symm).elim, fun h => absurd h.1 (Nat.not_lt.mpr hle)⟩
  · rename_i hgo
    have hlt : page * cantMensajesPorPage < app.maxMensaje := by simpa using hgo
    simp only [Option.some.injEq, hlt, true_and, hmin]
    exact eq_comm

/-- One more request under way keeps the invariant when it fits. -/
theorem Inv.of_request (h : Inv system) {request : Request}
    (hfits : Fits system.server system.listed { request }) (hsingle : request ≠ .ultimos →
      ∀ first last, .mas first last ∉ system.requests)
    (hreload : (∃ first last, .mas first last ∈ system.requests ++ [request]) →
      .ultimos ∈ system.requests ++ [request] → system.listed = cantMensajesPorPage) :
    Inv { system with flights := system.flights ++ [{ request }] } := by
  have hrequests : ({ system with flights := system.flights ++ [{ request }] } : System).requests
      = system.requests ++ [request] := by
    simp [requests]
  refine { h with fits := ?_, single := ?_, reload := ?_ }
  · intro flight hflight
    rcases List.mem_append.mp hflight with hflight | hflight
    · exact h.fits flight hflight
    · rw [List.mem_singleton.mp hflight]
      exact hfits
  · rw [hrequests, List.filter_append]
    by_cases hrequest : request = .ultimos
    · simpa [hrequest] using h.single
    · have hnone : system.requests.filter (· ≠ .ultimos) = [] := by
        refine List.filter_eq_nil_iff.mpr fun other hother => ?_
        cases other with
        | ultimos => simp
        | mas first last => exact absurd hother (hsingle hrequest first last)
      rw [hnone]
      simp [hrequest]
  · rw [hrequests]
    exact hreload

/-- Reloading. -/
theorem Inv.resume (h : Inv system) (haligned : Aligned system .resume) :
    Inv { system with flights := system.flights ++ [{ request := .ultimos }] } := by
  refine h.of_request trivial (fun hne => absurd rfl hne) ?_
  rintro ⟨first, last, hmem⟩ -
  exact haligned ⟨first, last, by simpa using hmem⟩

/-- A scroll changes nothing but the listener; when it asks it is due, and it asks for what
`cargarMasMensajes` says. -/
theorem onScroll_spec (app : Conversacion)
    (firstVisibleItem visibleItemCount totalItemCount : Nat) :
    ∃ listener, (onScroll app firstVisibleItem visibleItemCount totalItemCount).1
        = { app with mEndlessScrollListener := listener } ∧
      ∀ asked ∈ (onScroll app firstVisibleItem visibleItemCount totalItemCount).2,
        Due app firstVisibleItem visibleItemCount totalItemCount ∧
          cargarMasMensajes app (app.mEndlessScrollListener.turn totalItemCount).currentPage false
            = some asked := by
  unfold onScroll
  simp only
  split
  · exact ⟨app.mEndlessScrollListener, rfl, by simp⟩
  · split
    · rename_i hnear
      simp only [Bool.and_eq_true, Bool.not_eq_true', decide_eq_true_eq] at hnear
      obtain ⟨⟨hloading, hvisible⟩, hend⟩ := hnear
      split
      · rename_i window hwindow
        refine ⟨_, rfl, ?_⟩
        intro asked hasked
        obtain rfl := Option.mem_some_iff.mp hasked
        have hpage := (cargarMasMensajes_eq_some.mp hwindow).1
        exact ⟨⟨hloading, hvisible, hend, hpage⟩, hwindow⟩
      · exact ⟨_, rfl, by simp⟩
    · exact ⟨_, rfl, by simp⟩

/-- The listener does not matter to the invariant. -/
theorem Inv.of_listener (h : Inv system) (listener : EndlessScrollListener) :
    Inv { system with app := { system.app with mEndlessScrollListener := listener } } :=
  ⟨h.listed_le, h.block, h.count, h.fits, h.single, h.reload⟩

/-- Scrolling. -/
theorem Inv.scroll (h : Inv system) {firstVisibleItem visibleItemCount totalItemCount : Nat}
    (haligned : Aligned system (.scroll firstVisibleItem visibleItemCount totalItemCount))
    (hstep : Step system (.scroll firstVisibleItem visibleItemCount totalItemCount) next) :
    Inv next := by
  obtain ⟨listener, happ, hasked⟩ :=
    onScroll_spec system.app firstVisibleItem visibleItemCount totalItemCount
  rcases hscroll : onScroll system.app firstVisibleItem visibleItemCount totalItemCount with
    ⟨app, asked⟩
  rw [hscroll] at happ hasked
  simp only [Aligned] at haligned
  simp only [Step, exec, hscroll, Option.some.injEq] at hstep
  subst hstep
  obtain rfl : app = _ := happ
  cases asked with
  | none => simpa using h.of_listener listener
  | some asked =>
      obtain ⟨first, last⟩ := asked
      obtain ⟨hdue, hcarga⟩ := hasked (first, last) rfl
      obtain ⟨hpage, hmore, hnone, hreload⟩ := haligned hdue
      have hcount := h.count
      -- the page number and the offset together count the messages that are listed
      have hnext : ((system.app.mEndlessScrollListener.turn totalItemCount).currentPage + 1)
          * cantMensajesPorPage + system.app.mOffset = system.listed + cantMensajesPorPage := by
        rw [Nat.add_mul, Nat.one_mul]
        omega
      have hpositive : 0 < cantMensajesPorPage := by decide
      obtain ⟨-, hwindow⟩ := cargarMasMensajes_eq_some.mp hcarga
      rw [hnext, Prod.mk.injEq] at hwindow
      obtain ⟨hfirst, hlast⟩ := hwindow
      refine (h.of_listener listener).of_request ?_ (fun _ => hnone) ?_
      · show first = system.listed + 1 ∧ system.listed < last ∧ last ≤ system.server.length
        omega
      · rintro - hmem
        have hultimos : .ultimos ∈ system.requests ++ [.mas first last] := hmem
        exact hreload (by simpa using hultimos)

/-- A message arrives. -/
theorem Inv.nuevoMensaje (h : Inv system) {message : Message}
    (haligned : Aligned system (.nuevoMensaje message))
    (hstep : Step system (.nuevoMensaje message) next) : Inv next := by
  obtain ⟨hnewer, hunanswered, hanswered, hapart⟩ := haligned
  simp only [Step, exec] at hstep
  split at hstep
  · rename_i hbetween
    rw [recibirMensajesNuevos_of_admitted (isForConversation_of_between hbetween) hnewer] at hstep
    cases hstep
    have hlisted : (system.app.chatMessages ++ [message]).length = system.listed + 1 := by
      rw [List.length_append, List.length_singleton]
      rfl
    have hserver : (system.server ++ [message]).length = system.server.length + 1 := by
      rw [List.length_append, List.length_singleton]
    have hle := h.listed_le
    have hcount := h.count
    -- the messages before those listed are the same as before
    have hbefore : (system.server ++ [message]).length
        - (system.app.chatMessages ++ [message]).length
        = system.server.length - system.listed := by
      omega
    constructor
    · show (system.app.chatMessages ++ [message]).length ≤ (system.server ++ [message]).length
      omega
    · show (system.app.chatMessages ++ [message]).Perm ((system.server ++ [message]).drop
        ((system.server ++ [message]).length - (system.app.chatMessages ++ [message]).length))
      rw [hbefore, List.drop_append_of_le_length (by omega)]
      exact h.block.append_right _
    · show system.app.maxMensaje + 1 ≤ (system.server ++ [message]).length
      omega
    · rintro ⟨request, answer⟩ hflight
      have hfits := h.fits _ hflight
      cases request with
      | ultimos =>
          cases answer with
          | none => trivial
          | some response => exact absurd hflight (hanswered response)
      | mas first last =>
          cases answer with
          | none => exact absurd hflight (hunanswered first last)
          | some response =>
              obtain ⟨hfirst, hprecedes⟩ := hfits
              have happended := hprecedes.append message
              rw [← hlisted] at happended
              exact ⟨hfirst, happended⟩
    · exact h.single
    · rintro ⟨first, last, hmem⟩ hreload
      exact absurd hreload (hapart first last hmem)
  · cases hstep

/-- The answer to a request that fits fits as well. -/
theorem Fits.answered {request : Request} (hlisted : system.listed ≤ system.server.length)
    (h : Fits system.server system.listed ⟨request, none⟩) :
    Fits system.server system.listed ⟨request, some (answerOf system.server request)⟩ := by
  cases request with
  | ultimos => rfl
  | mas first last =>
      obtain ⟨hfirst, hlast, hserver⟩ := h
      refine ⟨by omega, ⟨system.server.length - last, by omega, ?_⟩, _, Nat.le_refl _, rfl⟩
      show window system.server first last = _
      have htake : system.server.length + 1 - first = system.server.length - system.listed := by
        omega
      rw [window, htake]

/-- The server answers. -/
theorem Inv.answered (h : Inv system) {index : Nat} (hstep : Step system (.answered index) next) :
    Inv next := by
  simp only [Step, exec] at hstep
  split at hstep
  · rename_i request hflight
    cases hstep
    have hrequests : (system.flights.set index
        ⟨request, some (answerOf system.server request)⟩).map Flight.request
        = system.flights.map Flight.request := by
      refine List.ext_getElem? fun position => ?_
      simp only [List.getElem?_map, List.getElem?_set]
      split
      · rename_i heq
        subst heq
        rw [if_pos (List.getElem?_eq_some_iff.mp hflight).1, hflight]
        rfl
      · rfl
    refine { h with fits := ?_, single := ?_, reload := ?_ }
    · intro flight hmem
      rcases List.mem_or_eq_of_mem_set hmem with hmem | rfl
      · exact h.fits flight hmem
      · exact Fits.answered h.listed_le (h.fits _ (List.mem_of_getElem? hflight))
    · simp only [requests, hrequests]
      exact h.single
    · simp only [requests, hrequests]
      exact h.reload
  · cases hstep

/-- The latest page replaces what is listed. -/
theorem Inv.reloaded (h : Inv system)
    (hreload : (∃ first last, .mas first last ∈ system.requests) →
      system.listed = cantMensajesPorPage) :
    Inv { system with
      app := onUltimosMensajes system.app (some (answerOf system.server .ultimos)) } := by
  have hperm := perm_onUltimosMensajes system.app system.server
  have hlisted : ({ system with
      app := onUltimosMensajes system.app (some (answerOf system.server .ultimos)) } :
        System).listed
      = min system.server.length cantMensajesPorPage := by
    rw [listed, hperm.length_eq, List.length_drop]
    omega
  have hle := h.listed_le
  -- while an older page is on its way, exactly one page is listed, before and after
  have hsame : ∀ first last, .mas first last ∈ system.requests →
      ({ system with
        app := onUltimosMensajes system.app (some (answerOf system.server .ultimos)) } :
          System).listed = system.listed := by
    intro first last hmem
    have hfull := hreload ⟨first, last, hmem⟩
    rw [hlisted]
    omega
  constructor
  · rw [hlisted]
    exact Nat.min_le_left _ _
  · have hdrop : system.server.length - min system.server.length cantMensajesPorPage
        = system.server.length - cantMensajesPorPage := by omega
    rw [hlisted, hdrop]
    exact hperm
  · exact Nat.le_refl _
  · rintro ⟨request, answer⟩ hflight
    have hfits := h.fits _ hflight
    cases request with
    | ultimos => cases answer <;> exact hfits
    | mas first last =>
        have hequal := hsame first last (request_mem hflight)
        cases answer with
        | none =>
            simp only [Fits, hequal]
            exact hfits
        | some response =>
            obtain ⟨hfirst, hmessages, hcount⟩ := hfits
            refine ⟨hfirst, ?_, hcount⟩
            rw [hequal]
            exact hmessages
  · exact h.single
  · rintro ⟨first, last, hmem⟩ -
    rw [hsame first last hmem]
    exact hreload ⟨first, last, hmem⟩

/-- Messages right before those listed come in front of them. -/
theorem Inv.prepended (h : Inv system) {response : MessagesResponse}
    (hnone : ∀ first last, .mas first last ∉ system.requests)
    (hprecedes : Precedes system.server system.listed response) :
    Inv { system with app := onMasMensajes system.app (some response) } := by
  obtain ⟨⟨older, holder, hmessages⟩, total, htotal, hresponse⟩ := hprecedes
  have hle := h.listed_le
  have hperm := perm_onMasMensajes h.block holder (by omega) hmessages
  have hlisted : ({ system with app := onMasMensajes system.app (some response) } : System).listed
      = system.server.length - older := by
    rw [listed, hperm.length_eq, List.length_drop]
  constructor
  · rw [hlisted]
    exact Nat.sub_le _ _
  · have hdrop : system.server.length - (system.server.length - older) = older := by omega
    rw [hlisted, hdrop]
    exact hperm
  · show response.totalCount.getD system.app.maxMensaje ≤ system.server.length
    rw [hresponse]
    exact htotal
  · rintro ⟨request, answer⟩ hflight
    have hfits := h.fits _ hflight
    cases request with
    | ultimos => cases answer <;> exact hfits
    | mas first last => exact absurd (request_mem hflight) (hnone first last)
  · exact h.single
  · rintro ⟨first, last, hmem⟩
    exact absurd hmem (hnone first last)

/-- Only one window of older messages is under way. -/
theorem Inv.no_other_window (h : Inv system) {index first last : Nat}
    {answer : Option MessagesResponse}
    (hflight : system.flights[index]? = some { request := .mas first last, answer }) :
    ∀ other another, .mas other another ∉
      ({ system with flights := system.flights.eraseIdx index } : System).requests := by
  intro other another hmem
  obtain ⟨hindex, hget⟩ := List.getElem?_eq_some_iff.mp hflight
  have hperm := (List.getElem_cons_eraseIdx_perm hindex).map Flight.request
  rw [hget, List.map_cons] at hperm
  have hlength := (hperm.filter (· ≠ .ultimos)).length_eq
  have hone : .mas other another ∈ ((system.flights.eraseIdx index).map Flight.request).filter
      (· ≠ .ultimos) := List.mem_filter.mpr ⟨hmem, by simp⟩
  have hpositive := List.length_pos_of_mem hone
  have hsingle : ((system.flights.map Flight.request).filter (· ≠ .ultimos)).length ≤ 1 :=
    h.single
  rw [← hlength, List.filter_cons_of_pos (by simp), List.length_cons] at hsingle
  omega

/-- An answer is delivered. -/
theorem Inv.delivered (h : Inv system) {index : Nat}
    (hstep : Step system (.delivered index) next) :
    Inv next := by
  simp only [Step, exec] at hstep
  split at hstep
  · rename_i request response hflight
    cases hstep
    have hmem : ⟨request, some response⟩ ∈ system.flights := List.mem_of_getElem? hflight
    have hfits := h.fits _ hmem
    have hsub := List.eraseIdx_sublist system.flights index
    have hrest := h.of_sublist hsub
    cases request with
    | ultimos =>
        obtain rfl : response = answerOf system.server .ultimos := hfits
        refine hrest.reloaded ?_
        rintro ⟨first, last, holder⟩
        exact h.reload ⟨first, last, (hsub.map Flight.request).mem holder⟩ (request_mem hmem)
    | mas first last =>
        obtain ⟨-, hmessages, hcount⟩ := hfits
        exact hrest.prepended (h.no_other_window hflight) ⟨hmessages, hcount⟩
  · cases hstep

/-- An aligned step keeps the invariant. -/
theorem Inv.step (h : Inv system) {event : Event} (hstep : Step system event next)
    (haligned : Aligned system event) : Inv next := by
  cases event with
  | resume =>
      cases hstep
      exact h.resume haligned
  | scroll firstVisibleItem visibleItemCount totalItemCount => exact h.scroll haligned hstep
  | nuevoMensaje message => exact h.nuevoMensaje haligned hstep
  | otroMensaje message =>
      simp only [Step, exec, recibirMensajesNuevos_of_rejected haligned] at hstep
      cases hstep
      exact h
  | answered index => exact h.answered hstep
  | delivered index => exact h.delivered hstep
  | failed index =>
      simp only [Step, exec] at hstep
      split at hstep
      · cases hstep
        exact h.of_sublist (List.eraseIdx_sublist _ _)
      · cases hstep

/-! ## Runs -/

/-- In every run of aligned steps the messages listed are the newest ones of the server, each
once, and every window that is asked for has a first message no later than its last. -/
theorem paged_of_run {connectedUserID corresponsalID : Long} {events : List Event}
    (h : Lib.Run (Lib.Guarded Step Aligned) (start server connectedUserID corresponsalID) events
      system) : Paged system := by
  have hinv :=
    @Lib.Run.invariant_of_guarded _ _ Step _ _ events Aligned (fun _ => True) Inv trivial
    (fun _ _ _ _ _ => trivial) (inv_start server connectedUserID corresponsalID)
    (fun _ _ _ _ hinv hstep haligned => hinv.step hstep haligned) h
  exact hinv.2.paged

/-- The conversation is opened and its latest page arrives. -/
theorem run_opened (server : List Message) (connectedUserID corresponsalID : Long) :
    Lib.Run (Lib.Guarded Step Aligned) (start server connectedUserID corresponsalID)
      [.resume, .answered 0, .delivered 0]
      ⟨server, { opened connectedUserID corresponsalID with
        chatMessages := sort (window server 1 cantMensajesPorPage)
        maxMensaje := server.length }, []⟩ := by
  have hresume : Aligned (start server connectedUserID corresponsalID) .resume := by
    rintro ⟨first, last, hmem⟩
    cases hmem
  have hstart : Lib.Run (Lib.Guarded Step Aligned) (start server connectedUserID corresponsalID)
      []
    (start server connectedUserID corresponsalID) := .nil
  have hresumed := hstart.snoc (And.intro (show Step _ .resume _ from rfl) hresume)
  have hanswered := hresumed.snoc (And.intro (show Step _ (.answered 0) _ from rfl) trivial)
  exact hanswered.snoc (And.intro (show Step _ (.delivered 0) _ from rfl) trivial)

/-- A conversation of twenty-one messages, all of them loaded in two pages. -/
def loaded : System where
  server := List.replicate 21 ⟨2, 1, ['x'], ['a']⟩
  app := { opened 1 2 with
    chatMessages := List.replicate 21 ⟨2, 1, ['x'], ['a']⟩
    maxMensaje := 21
    mEndlessScrollListener := { currentPage := 1, previousTotal := 20 } }

/-- It is opened and the oldest message is loaded on scrolling. -/
theorem run_loaded :
    Lib.Run (Lib.Guarded Step Aligned) (start (List.replicate 21 ⟨2, 1, ['x'], ['a']⟩) 1 2)
      [.resume, .answered 0, .delivered 0, .scroll 8 10 20, .answered 0, .delivered 0]
        loaded := by
  have hlatest : sort (window (List.replicate 21 ⟨2, 1, ['x'], ['a']⟩) 1 cantMensajesPorPage)
      = List.replicate 20 ⟨2, 1, ['x'], ['a']⟩ :=
    List.mergeSort_of_pairwise (by decide)
  have holder : sort (window (List.replicate 21 ⟨2, 1, ['x'], ['a']⟩) 21 21)
      = [⟨2, 1, ['x'], ['a']⟩] :=
    List.mergeSort_of_pairwise (by decide)
  have hopened := run_opened (List.replicate 21 ⟨2, 1, ['x'], ['a']⟩) 1 2
  rw [hlatest] at hopened
  have hasked := hopened.snoc (And.intro (show Step _ (.scroll 8 10 20) _ from rfl)
    (fun _ => ⟨rfl, by decide, fun _ _ => List.not_mem_nil, fun _ => rfl⟩))
  have hanswered := hasked.snoc (And.intro (show Step _ (.answered 0) _ from rfl) trivial)
  refine hanswered.snoc (And.intro (show Step _ (.delivered 0) _ from ?_) trivial)
  exact congrArg (fun older => some { loaded with app := { loaded.app with
    chatMessages := appendearMensajes (List.replicate 20 ⟨2, 1, ['x'], ['a']⟩) older } }) holder

/-- Then a new message arrives, and one of another conversation. -/
theorem paged_of_older :
    ∃ system, Lib.Run (Lib.Guarded Step Aligned)
      (start (List.replicate 21 ⟨2, 1, ['x'], ['a']⟩) 1 2)
        [.resume, .answered 0, .delivered 0, .scroll 8 10 20, .answered 0, .delivered 0,
          .nuevoMensaje ⟨2, 1, ['x'], ['b']⟩, .otroMensaje ⟨3, 4, ['x'], ['c']⟩] system ∧
      Paged system := by
  have hnew : Aligned loaded (.nuevoMensaje ⟨2, 1, ['x'], ['b']⟩) :=
    ⟨by decide, fun _ _ => List.not_mem_nil, fun _ => List.not_mem_nil,
      fun _ _ h => absurd h List.not_mem_nil⟩
  have harrived := run_loaded.snoc
    (And.intro (show Step _ (.nuevoMensaje ⟨2, 1, ['x'], ['b']⟩) _ from rfl) hnew)
  have hother := harrived.snoc (And.intro
    (show Step _ (.otroMensaje ⟨3, 4, ['x'], ['c']⟩) _ from rfl)
      (fun h => absurd h.1 (by decide)))
  exact ⟨_, hother, paged_of_run hother⟩

/-- With all twenty messages listed the listener turns to a page that does not exist; once a
message has arrived, the window from the twenty-second message to the twenty-first is asked for.
-/
theorem empty_window :
    ∃ system, Lib.Run Step (start (List.replicate 20 ⟨2, 1, ['x'], ['a']⟩) 1 2)
        [.resume, .answered 0, .delivered 0, .scroll 0 10 20,
          .nuevoMensaje ⟨2, 1, ['x'], ['b']⟩, .scroll 11 10 21] system ∧ ¬ Paged system := by
  have hsort : sort (window (List.replicate 20 ⟨2, 1, ['x'], ['a']⟩) 1 cantMensajesPorPage)
      = List.replicate 20 ⟨2, 1, ['x'], ['a']⟩ :=
    List.mergeSort_of_pairwise (by decide)
  have hopened := (run_opened (List.replicate 20 ⟨2, 1, ['x'], ['a']⟩) 1 2).of_guarded
  rw [hsort] at hopened
  have hturned := hopened.snoc (show Step _ (.scroll 0 10 20) _ from rfl)
  have harrived := hturned.snoc (show Step _ (.nuevoMensaje ⟨2, 1, ['x'], ['b']⟩) _ from rfl)
  refine ⟨_, harrived.snoc (show Step _ (.scroll 11 10 21) _ from rfl), ?_⟩
  intro h
  exact absurd (h.windows 22 21 (by decide)) (by decide)

end System

end TallerII.ConversacionActivity
