import TallerII.Basic
import TallerII.Lib.Run

/-!
# The open conversation of the app

`ConversacionActivity` shows the messages of the connected user and a correspondent, the oldest
one first: it loads the latest page, puts older pages in front and appends the messages that
arrive. A message that arrives is tested against the ids of the conversation and against the
oldest message that is listed. `wellFormed_iff` says which events keep the list well formed.
-/

namespace TallerII.ConversacionActivity

/-- `CANT_MENSAJES_POR_PAGE`. -/
def cantMensajesPorPage : Nat := 20

/-- What the conversation needs of a `Message`. -/
structure Message where
  fromId : Long
  toId : Long
  message : Text
  timestamp : Text
deriving Repr, DecidableEq

/-- `MessagesResponse`, with the total count of its metadata. -/
structure MessagesResponse where
  messages : List Message
  totalCount : Option Nat
deriving Repr, DecidableEq

/-- `EndlessScrollListener`. -/
structure EndlessScrollListener where
  currentPage : Nat := 0
  previousTotal : Nat := 0
  loading : Bool := true
  activado : Bool := true
deriving Repr, DecidableEq

/-- The fields of the activity, with the messages of its `MessageArrayAdapter`. -/
structure Conversacion where
  connectedUserID : Long
  corresponsalID : Long
  chatMessages : List Message := []
  maxMensaje : Nat := 0
  mOffset : Nat := 0
  mEndlessScrollListener : EndlessScrollListener := {}
deriving Repr, DecidableEq

/-! ## Messages that are loaded -/

/-- `MessagesResponse.sort`, by increasing timestamp; messages with the same one stay in order. -/
def sort (messages : List Message) : List Message :=
  messages.mergeSort fun m1 m2 => m1.timestamp ≤ m2.timestamp

/-- `onResponse` in `cargarUltimosMensajes`, when the response can be parsed or not. -/
def onUltimosMensajes (state : Conversacion) (response : Option MessagesResponse) :
    Conversacion :=
  match response with
  | none => state
  | some messagesResponse =>
    { state with
      maxMensaje := messagesResponse.totalCount.getD state.maxMensaje
      chatMessages := sort messagesResponse.messages
      mOffset := 0 }

/-- `cargarMasMensajes`: the first and the last message that it asks for, numbered from the
newest, if it asks. -/
def cargarMasMensajes (state : Conversacion) (page : Nat) (forzarCarga : Bool) :
    Option (Nat × Nat) :=
  if ! forzarCarga && page * cantMensajesPorPage ≥ state.maxMensaje then none
  else
    let numFirst := page * cantMensajesPorPage + 1 + state.mOffset
    let numLast := (page + 1) * cantMensajesPorPage + state.mOffset
    some (numFirst, if state.maxMensaje < numLast then state.maxMensaje else numLast)

/-- `appendearMensajes`: the messages are put in front one by one, the last of them first. -/
def appendearMensajes (chatMessages messageList : List Message) : List Message :=
  messageList.reverse.foldl (fun listed mensajeMasViejo => mensajeMasViejo :: listed) chatMessages

/-- `activar`. -/
def EndlessScrollListener.activar (listener : EndlessScrollListener) : EndlessScrollListener :=
  { listener with activado := true, loading := true }

/-- `onResponse` in `cargarMasMensajes`. -/
def onMasMensajes (state : Conversacion) (response : Option MessagesResponse) : Conversacion :=
  match response with
  | none => state
  | some messagesResponse =>
    { state with
      maxMensaje := messagesResponse.totalCount.getD state.maxMensaje
      chatMessages := appendearMensajes state.chatMessages (sort messagesResponse.messages)
      mEndlessScrollListener := state.mEndlessScrollListener.activar }

/-- The first half of `onScroll`: once the list has grown since the last page was asked for, the
next page is due. -/
def EndlessScrollListener.turn (listener : EndlessScrollListener) (totalItemCount : Nat) :
    EndlessScrollListener :=
  if listener.loading && totalItemCount > listener.previousTotal then
    { listener with
      loading := false, previousTotal := totalItemCount
      currentPage := listener.currentPage + 1 }
  else listener

/-- `onScroll`, with the window that it asks for. -/
def onScroll (state : Conversacion) (firstVisibleItem visibleItemCount totalItemCount : Nat) :
    Conversacion × Option (Nat × Nat) :=
  let listener := state.mEndlessScrollListener
  if ! listener.activado then (state, none)
  else
    let listener := listener.turn totalItemCount
    if ! listener.loading && firstVisibleItem ≠ 0 &&
        (totalItemCount : Int) - visibleItemCount ≤ firstVisibleItem + 3 then
      match cargarMasMensajes state listener.currentPage false with
      | some window =>
        ({ state with mEndlessScrollListener := { listener with loading := true } }, some window)
      | none => ({ state with mEndlessScrollListener := listener }, none)
    else ({ state with mEndlessScrollListener := listener }, none)

/-! ## Messages that arrive -/

/-- A message passes the test on the ids. -/
def isForConversation (state : Conversacion) (nuevoMensaje : Message) : Bool :=
  (nuevoMensaje.fromId = state.connectedUserID && nuevoMensaje.toId = state.corresponsalID) ||
    (nuevoMensaje.fromId = state.corresponsalID || nuevoMensaje.toId = state.connectedUserID)

/-- A message passes the test on the timestamps: it is newer than the first one listed. -/
def isNewer (state : Conversacion) (nuevoMensaje : Message) : Bool :=
  match state.chatMessages with
  | [] => true
  | first :: _ => ! (nuevoMensaje.timestamp ≤ first.timestamp : Bool)

/-- `agregarNuevoMensaje`, with the number of messages that were added. -/
def agregarNuevoMensaje (state : Conversacion) (nuevoMensaje : Message) : Conversacion × Nat :=
  if isNewer state nuevoMensaje then
    ({ state with
      chatMessages := state.chatMessages ++ [nuevoMensaje]
      maxMensaje := state.maxMensaje + 1
      mOffset := state.mOffset + 1 }, 1)
  else (state, 0)

/-- `recibirMensajesNuevos`, which says whether the message was for the conversation. -/
def recibirMensajesNuevos (state : Conversacion) (nuevoMensaje : Message) : Conversacion × Bool :=
  if ! isForConversation state nuevoMensaje then (state, false)
  else ((agregarNuevoMensaje state nuevoMensaje).1, true)

/-! ## Steps -/

/-- What changes the list. -/
inductive Event where
  | ultimosMensajes (response : Option MessagesResponse)
  | masMensajes (response : Option MessagesResponse)
  | nuevoMensaje (message : Message)

/-- The conversation after an event. -/
def exec (state : Conversacion) : Event → Conversacion
  | .ultimosMensajes response => onUltimosMensajes state response
  | .masMensajes response => onMasMensajes state response
  | .nuevoMensaje message => (recibirMensajesNuevos state message).1

/-- An event, whatever the network brings. -/
def Step (state : Conversacion) (event : Event) (next : Conversacion) : Prop :=
  exec state event = next

/-- The conversation when it is opened. -/
def opened (connectedUserID corresponsalID : Long) : Conversacion :=
  { connectedUserID, corresponsalID }

/-! ## Well-formed lists -/

/-- A message between two users. -/
def Message.Between (user contact : Long) (message : Message) : Prop :=
  message.fromId = user ∧ message.toId = contact ∨ message.fromId = contact ∧ message.toId = user

/-- Whether a message is between two users can be computed. -/
instance (user contact : Long) (message : Message) : Decidable (message.Between user contact) :=
  inferInstanceAs (Decidable (_ ∨ _))

/-- What tells a message from another one. -/
def Message.identity (message : Message) : Long × Long × Text × Text :=
  (message.fromId, message.toId, message.timestamp, message.message)

/-- Messages of two users, each once. -/
structure Sound (user contact : Long) (messages : List Message) : Prop where
  between : ∀ message ∈ messages, message.Between user contact
  once : (messages.map Message.identity).Nodup

/-- Messages by increasing timestamp. -/
def Ordered (messages : List Message) : Prop :=
  messages.Pairwise fun m1 m2 => m1.timestamp ≤ m2.timestamp

/-- The list shows messages of the conversation, each once, by increasing timestamp. -/
structure WellFormed (state : Conversacion) : Prop where
  sound : Sound state.connectedUserID state.corresponsalID state.chatMessages
  ordered : Ordered state.chatMessages

/-- A message that is not listed yet. -/
def IsNew (state : Conversacion) (message : Message) : Prop :=
  message.identity ∉ state.chatMessages.map Message.identity

/-- The events that keep the list well formed: a response has messages of the conversation, each
once; an older page has nothing that is listed and nothing newer than the first message listed;
and a message that is let in is one of the conversation that is not listed and not older than the
last one listed. -/
def Keeps (state : Conversacion) : Event → Prop
  | .ultimosMensajes response => ∀ messagesResponse ∈ response,
      Sound state.connectedUserID state.corresponsalID messagesResponse.messages
  | .masMensajes response => ∀ messagesResponse ∈ response,
      Sound state.connectedUserID state.corresponsalID messagesResponse.messages ∧
        (∀ message ∈ messagesResponse.messages, IsNew state message) ∧
        ∀ message ∈ messagesResponse.messages, ∀ first ∈ state.chatMessages.head?,
          message.timestamp ≤ first.timestamp
  | .nuevoMensaje message => isForConversation state message → isNewer state message →
      message.Between state.connectedUserID state.corresponsalID ∧ IsNew state message ∧
        ∀ last ∈ state.chatMessages.getLast?, last.timestamp ≤ message.timestamp

/-! ## What is listed after an event -/

variable {state : Conversacion} {user contact : Long}

/-- A message of the conversation passes the test on the ids. -/
theorem isForConversation_of_between {message : Message}
    (h : message.Between state.connectedUserID state.corresponsalID) :
    isForConversation state message := by
  rcases h with ⟨hfrom, hto⟩ | ⟨hfrom, hto⟩
  · simp [isForConversation, hfrom, hto]
  · simp [isForConversation, hfrom]

/-- A message that passes both tests is put at the end and counted. -/
theorem recibirMensajesNuevos_of_admitted {message : Message}
    (hfor : isForConversation state message) (hnewer : isNewer state message) :
    (recibirMensajesNuevos state message).1 = { state with
      chatMessages := state.chatMessages ++ [message]
      maxMensaje := state.maxMensaje + 1
      mOffset := state.mOffset + 1 } := by
  simp [recibirMensajesNuevos, agregarNuevoMensaje, hfor, hnewer]

/-- A message that fails one of the tests changes nothing. -/
theorem recibirMensajesNuevos_of_rejected {message : Message}
    (h : ¬ (isForConversation state message ∧ isNewer state message)) :
    (recibirMensajesNuevos state message).1 = state := by
  rw [recibirMensajesNuevos]
  split
  · rfl
  · rename_i hrefused
    have hfor : isForConversation state message := by simpa using hrefused
    have hnewer : isNewer state message = false := by simpa [hfor] using h
    simp [agregarNuevoMensaje, hnewer]

/-- The loop puts the messages in front, in their order. -/
theorem appendearMensajes_eq (chatMessages messageList : List Message) :
    appendearMensajes chatMessages messageList = messageList ++ chatMessages := by
  simp [appendearMensajes]

/-- Sorting keeps the messages. -/
theorem sort_perm (messages : List Message) : (sort messages).Perm messages :=
  List.mergeSort_perm _ _

/-- Sorted messages are in the order of their times. -/
theorem sort_ordered (messages : List Message) : Ordered (sort messages) := by
  have hsorted := @List.pairwise_mergeSort Message
    (fun m1 m2 => decide (m1.timestamp ≤ m2.timestamp)) ?_ ?_ messages
  · exact hsorted.imp fun hle => of_decide_eq_true hle
  · intro a b c hab hbc
    exact decide_eq_true ((of_decide_eq_true hab).trans (of_decide_eq_true hbc))
  · intro a b
    rw [Bool.or_eq_true, decide_eq_true_eq, decide_eq_true_eq]
    exact le_total _ _

/-- Being sound does not depend on the order. -/
theorem Sound.of_perm {messages others : List Message} (h : Sound user contact messages)
    (hperm : others.Perm messages) : Sound user contact others := by
  refine ⟨fun message hmessage => h.between message (hperm.mem_iff.mp hmessage), ?_⟩
  exact (hperm.map _).nodup_iff.mpr h.once

/-- Sorting makes nothing right or wrong about the messages. -/
theorem sound_sort {messages : List Message} :
    Sound user contact (sort messages) ↔ Sound user contact messages :=
  ⟨fun h => h.of_perm (sort_perm messages).symm, fun h => h.of_perm (sort_perm messages)⟩

/-- Two sound lists that share nothing make a sound one. -/
theorem sound_append {older newer : List Message} :
    Sound user contact (older ++ newer) ↔ Sound user contact older ∧ Sound user contact newer ∧
      ∀ message ∈ older, message.identity ∉ newer.map Message.identity := by
  constructor
  · rintro ⟨hbetween, honce⟩
    rw [List.map_append, List.nodup_append] at honce
    obtain ⟨holder, hnewer, hapart⟩ := honce
    refine ⟨⟨fun message hmessage => hbetween message (List.mem_append_left _ hmessage), holder⟩,
      ⟨fun message hmessage => hbetween message (List.mem_append_right _ hmessage), hnewer⟩, ?_⟩
    intro message hmessage hlisted
    exact hapart _ (List.mem_map_of_mem hmessage) _ hlisted rfl
  · rintro ⟨holder, hnewer, hapart⟩
    constructor
    · intro message hmessage
      rcases List.mem_append.mp hmessage with hmessage | hmessage
      · exact holder.between message hmessage
      · exact hnewer.between message hmessage
    · rw [List.map_append, List.nodup_append]
      refine ⟨holder.once, hnewer.once, ?_⟩
      rintro _ hidentity other hother rfl
      obtain ⟨message, hmessage, heq⟩ := List.mem_map.mp hidentity
      rw [← heq] at hother
      exact hapart message hmessage hother

/-- Nothing in an ordered list is earlier than its first message. -/
theorem Ordered.forall_iff_head {messages : List Message} (h : Ordered messages)
    (message : Message) :
    (∀ later ∈ messages, message.timestamp ≤ later.timestamp) ↔
      ∀ first ∈ messages.head?, message.timestamp ≤ first.timestamp := by
  constructor
  · intro hall first hfirst
    exact hall first (List.mem_of_mem_head? hfirst)
  · intro hfirst later hlater
    cases messages with
    | nil => cases hlater
    | cons first rest =>
        have hle := hfirst first rfl
        rcases List.mem_cons.mp hlater with rfl | hrest
        · exact hle
        · exact hle.trans ((List.pairwise_cons.mp h).1 later hrest)

/-- Nothing in an ordered list is later than its last message. -/
theorem Ordered.forall_iff_getLast {messages : List Message} (h : Ordered messages)
    (message : Message) :
    (∀ earlier ∈ messages, earlier.timestamp ≤ message.timestamp) ↔
      ∀ last ∈ messages.getLast?, last.timestamp ≤ message.timestamp := by
  constructor
  · intro hall last hlast
    exact hall last (List.mem_of_getLast? hlast)
  · intro hlast earlier hearlier
    rcases List.eq_nil_or_concat' messages with rfl | ⟨rest, last, rfl⟩
    · cases hearlier
    · have hle := hlast last (by simp)
      have hbefore := (List.pairwise_append.mp h).2.2
      rcases List.mem_append.mp hearlier with hrest | hsame
      · exact (hbefore earlier hrest last List.mem_cons_self).trans hle
      · rwa [List.mem_singleton.mp hsame]

/-- A list is well formed when its messages are right and ordered. -/
theorem wellFormed_iff_sound :
    WellFormed state ↔ Sound state.connectedUserID state.corresponsalID state.chatMessages ∧
      Ordered state.chatMessages :=
  ⟨fun h => ⟨h.sound, h.ordered⟩, fun h => ⟨h.1, h.2⟩⟩

/-- An older page in front of a well-formed list. -/
theorem wellFormed_prepend (h : WellFormed state) {messages : List Message} :
    (Sound state.connectedUserID state.corresponsalID
        (appendearMensajes state.chatMessages (sort messages)) ∧
      Ordered (appendearMensajes state.chatMessages (sort messages))) ↔
      Sound state.connectedUserID state.corresponsalID messages ∧
        (∀ message ∈ messages, IsNew state message) ∧
        ∀ message ∈ messages, ∀ first ∈ state.chatMessages.head?,
          message.timestamp ≤ first.timestamp := by
  have hmem : ∀ message, message ∈ sort messages ↔ message ∈ messages :=
    fun message => (sort_perm messages).mem_iff
  have hordered : Ordered (sort messages ++ state.chatMessages) ↔
      ∀ message ∈ sort messages, ∀ later ∈ state.chatMessages,
        message.timestamp ≤ later.timestamp := by
    rw [Ordered, List.pairwise_append]
    exact ⟨fun hall => hall.2.2, fun hbefore => ⟨sort_ordered messages, h.ordered, hbefore⟩⟩
  rw [appendearMensajes_eq, sound_append, sound_sort, hordered]
  simp only [hmem, h.ordered.forall_iff_head, IsNew]
  constructor
  · rintro ⟨⟨hsound, -, hnew⟩, hbefore⟩
    exact ⟨hsound, hnew, hbefore⟩
  · rintro ⟨hsound, hnew, hbefore⟩
    exact ⟨⟨hsound, h.sound, hnew⟩, hbefore⟩

/-- A message behind a well-formed list. -/
theorem wellFormed_append (h : WellFormed state) {message : Message} :
    (Sound state.connectedUserID state.corresponsalID (state.chatMessages ++ [message]) ∧
      Ordered (state.chatMessages ++ [message])) ↔
      message.Between state.connectedUserID state.corresponsalID ∧ IsNew state message ∧
        ∀ last ∈ state.chatMessages.getLast?, last.timestamp ≤ message.timestamp := by
  have hsingle : Sound state.connectedUserID state.corresponsalID [message] ↔
      message.Between state.connectedUserID state.corresponsalID := by
    constructor
    · intro hsound
      exact hsound.between message List.mem_cons_self
    · intro hbetween
      refine ⟨?_, List.nodup_singleton _⟩
      intro other hother
      rwa [List.mem_singleton.mp hother]
  have hapart : (∀ other ∈ state.chatMessages, other.identity ∉ [message].map Message.identity) ↔
      IsNew state message := by
    simp [IsNew, eq_comm]
  have hordered : Ordered (state.chatMessages ++ [message]) ↔
      ∀ earlier ∈ state.chatMessages, earlier.timestamp ≤ message.timestamp := by
    simp only [Ordered, List.pairwise_append, List.mem_singleton, forall_eq,
      List.pairwise_singleton, true_and]
    exact and_iff_right h.ordered
  rw [sound_append, hsingle, hapart, hordered, h.ordered.forall_iff_getLast]
  constructor
  · rintro ⟨⟨-, hbetween, hnew⟩, hlast⟩
    exact ⟨hbetween, hnew, hlast⟩
  · rintro ⟨hbetween, hnew, hlast⟩
    exact ⟨⟨h.sound, hbetween, hnew⟩, hlast⟩

/-- An event keeps a well-formed list well formed exactly when it is one of those. -/
theorem wellFormed_exec_iff (h : WellFormed state) (event : Event) :
    WellFormed (exec state event) ↔ Keeps state event := by
  rw [wellFormed_iff_sound]
  cases event with
  | ultimosMensajes response =>
      cases response with
      | none => simpa [exec, onUltimosMensajes, Keeps] using wellFormed_iff_sound.mp h
      | some messagesResponse =>
          have hsorted := sort_ordered messagesResponse.messages
          simp [exec, onUltimosMensajes, Keeps, sound_sort, hsorted]
  | masMensajes response =>
      cases response with
      | none => simpa [exec, onMasMensajes, Keeps] using wellFormed_iff_sound.mp h
      | some messagesResponse =>
          simp only [Keeps, Option.mem_some_iff, forall_eq']
          exact wellFormed_prepend h
  | nuevoMensaje message =>
      simp only [Keeps, exec, recibirMensajesNuevos, agregarNuevoMensaje]
      by_cases hfor : isForConversation state message
      · by_cases hnewer : isNewer state message
        · simpa [hfor, hnewer] using wellFormed_append h
        · simpa [hfor, hnewer] using wellFormed_iff_sound.mp h
      · simpa [hfor] using wellFormed_iff_sound.mp h

/-- Whatever the network brings, in every order: the runs in which the list stays well formed are
those whose every event is one that keeps it so. -/
theorem wellFormed_iff {events : List Event} (connectedUserID corresponsalID : Long) :
    Lib.Run (Lib.Guarded Step Keeps) (opened connectedUserID corresponsalID) events state ↔
      Lib.Run (fun before event next => Step before event next ∧ WellFormed next)
        (opened connectedUserID corresponsalID) events state := by
  have hopened : WellFormed (opened connectedUserID corresponsalID) :=
    ⟨⟨by simp [opened], List.nodup_nil⟩, List.Pairwise.nil⟩
  refine @Lib.Run.guarded_iff _ _ Step _ _ events Keeps (fun _ => True) WellFormed trivial
    (fun _ _ _ _ _ => trivial) hopened ?_
  rintro before event next - hbefore rfl
  exact wellFormed_exec_iff hbefore event

/-- A message of the correspondent to a third user is shown, and one that is delivered again is
shown again. -/
theorem third_user_shown :
    (∃ state, Lib.Run Step (opened 1 2) [.nuevoMensaje ⟨2, 3, ['x'], ['t']⟩] state ∧
      ¬ WellFormed state) ∧
    ∃ state, Lib.Run Step (opened 1 2) [.nuevoMensaje ⟨2, 1, ['x'], ['s']⟩,
      .nuevoMensaje ⟨2, 1, ['y'], ['t']⟩, .nuevoMensaje ⟨2, 1, ['y'], ['t']⟩] state ∧
      ¬ WellFormed state := by
  refine ⟨⟨_, Lib.Run.nil.snoc rfl, ?_⟩, _, ((Lib.Run.nil.snoc rfl).snoc rfl).snoc rfl, ?_⟩
  · intro h
    exact absurd (h.sound.between ⟨2, 3, ['x'], ['t']⟩ (by decide)) (by decide)
  · intro h
    exact absurd h.sound.once (by decide)

end TallerII.ConversacionActivity
