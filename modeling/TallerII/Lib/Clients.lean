import TallerII.Lib.Run

/-!
# Clients that act on what they were shown

Clients ask a server, show what it answers, and offer requests that fit the answer. The network
may lose, delay, reorder and repeat everything, and the server serves others in the meantime, so a
request can be served long after the answer that it was offered for. `Sound` says what is left:
all that is on its way goes back to a moment of the server, and so does every act of a client
(`sound_of_run`). A run whose requests are `Fresh` excludes what may come between the answer and
the act.
-/

namespace TallerII.Lib

universe u

/-- A server and its clients: acts `α` on states `σ`, queries `κ` with answers `ν`, requests `ρ`,
and the screens `γ`. -/
structure Clients (σ α κ ν ρ γ : Type u) where
  steps : σ → α → σ → Prop
  /-- What the server answers to a query, or `none` for an error. -/
  answer : σ → κ → Option ν
  asks : κ → Prop
  /-- The requests that are offered with an answer. -/
  offers : κ → ν → List ρ
  /-- The act is what the server does for the request. -/
  serves : ρ → α → Prop
  succeeds : α → Bool
  /-- Only a client asks for such an act. -/
  own : α → Prop
  display : γ → κ → ν → γ
  confirm : γ → ρ → γ

namespace Clients

variable {σ α κ ν ρ γ : Type u}

/-- The server, the screens, and all that was ever sent: the network may deliver it at any time
and any number of times. Answers and requests are kept with the acts that the server had done when
it gave the answer, and confirmations with those before the act. Nobody reads these. -/
structure State (σ α κ ν ρ γ : Type u) where
  server : σ
  served : List α
  queries : List κ
  answers : List (κ × ν × List α)
  displayed : List (κ × ν × List α)
  requests : List (ρ × List α)
  confirmations : List (ρ × List α)
  screens : γ

/-- Nothing was sent yet. -/
def State.initial (server : σ) (screens : γ) : State σ α κ ν ρ γ where
  server := server
  served := []
  queries := []
  answers := []
  displayed := []
  requests := []
  confirmations := []
  screens := screens

/-- What can happen: a client asks, the server answers, a client shows the answer and makes a
request, the server does what is requested or what others ask for, and a client sees a
confirmation. -/
inductive Event (α κ ν ρ : Type u) where
  | ask (query : κ)
  | answer (query : κ) (answer : ν)
  | display (query : κ) (answer : ν) (moment : List α)
  | request (request : ρ) (moment : List α)
  | serve (request : ρ) (moment : List α) (act : α)
  | other (act : α)
  | confirm (request : ρ) (moment : List α)

variable (clients : Clients σ α κ ν ρ γ)

/-- What each event does. Messages are never used up. -/
inductive Step : State σ α κ ν ρ γ → Event α κ ν ρ → State σ α κ ν ρ γ → Prop where
  | ask {s : State σ α κ ν ρ γ} {query : κ} (hasks : clients.asks query) :
      Step s (.ask query) { s with queries := query :: s.queries }
  | answer {s : State σ α κ ν ρ γ} {query : κ} {answer : ν} (hquery : query ∈ s.queries)
      (hanswer : clients.answer s.server query = some answer) :
      Step s (.answer query answer)
        { s with answers := (query, answer, s.served) :: s.answers }
  | display {s : State σ α κ ν ρ γ} {query : κ} {answer : ν} {moment : List α}
      (hanswer : (query, answer, moment) ∈ s.answers) :
      Step s (.display query answer moment)
        { s with
          displayed := (query, answer, moment) :: s.displayed
          screens := clients.display s.screens query answer }
  | request {s : State σ α κ ν ρ γ} {query : κ} {answer : ν} {moment : List α} {request : ρ}
      (hdisplayed : (query, answer, moment) ∈ s.displayed)
      (hoffered : request ∈ clients.offers query answer) :
      Step s (.request request moment) { s with requests := (request, moment) :: s.requests }
  | serve {s : State σ α κ ν ρ γ} {request : ρ} {moment : List α} {act : α} {next : σ}
      (hrequest : (request, moment) ∈ s.requests) (hserves : clients.serves request act)
      (hstep : clients.steps s.server act next) :
      Step s (.serve request moment act)
        { s with
          server := next
          served := s.served ++ [act]
          confirmations :=
            if clients.succeeds act then (request, s.served) :: s.confirmations
            else s.confirmations }
  | other {s : State σ α κ ν ρ γ} {act : α} {next : σ} (hother : ¬ clients.own act)
      (hstep : clients.steps s.server act next) :
      Step s (.other act) { s with server := next, served := s.served ++ [act] }
  | confirm {s : State σ α κ ν ρ γ} {request : ρ} {moment : List α}
      (hconfirmation : (request, moment) ∈ s.confirmations) :
      Step s (.confirm request moment)
        { s with screens := clients.confirm s.screens request }

/-! ## What messages go back to -/

/-- The acts led to a server that answers the query so. -/
def At (start : σ) (moment : List α) (query : κ) (answer : ν) : Prop :=
  ∃ server, Run clients.steps start moment server ∧ clients.answer server query = some answer

/-- The act was offered with an answer that was shown, and what was served since the answer allows
it. -/
def Offered (fresh : List α → α → Prop) (displayed : List (κ × ν × List α)) (before : List α)
    (act : α) : Prop :=
  ∃ moment since query answer request, before = moment ++ since ∧ fresh since act ∧
    (query, answer, moment) ∈ displayed ∧ request ∈ clients.offers query answer ∧
    clients.serves request act

/-- A request is served only when what was served since its answer allows that. -/
def Fresh (fresh : List α → α → Prop) (s : State σ α κ ν ρ γ) : Event α κ ν ρ → Prop
  | .serve _ moment act => ∀ since, s.served = moment ++ since → fresh since act
  | _ => True

/-- The answer was given at a moment of the server. -/
def Answered (start : σ) (served : List α) (message : κ × ν × List α) : Prop :=
  message.2.2 <+: served ∧ clients.At start message.2.2 message.1 message.2.1

/-- The request was offered with an answer that was shown. -/
def Requested (displayed : List (κ × ν × List α)) (message : ρ × List α) : Prop :=
  ∃ query answer, (query, answer, message.2) ∈ displayed ∧ message.1 ∈ clients.offers query answer

/-- The server did what was requested. -/
def Confirmed (served : List α) (message : ρ × List α) : Prop :=
  ∃ act, message.2 ++ [act] <+: served ∧ clients.serves message.1 act ∧ clients.succeeds act

/-- All messages go back to moments of the server, and every act of a client was offered. -/
structure Sound (fresh : List α → α → Prop) (start : σ) (s : State σ α κ ν ρ γ) : Prop where
  run : Run clients.steps start s.served s.server
  answers : ∀ message ∈ s.answers, clients.Answered start s.served message
  displayed : ∀ message ∈ s.displayed, clients.Answered start s.served message
  requests : ∀ message ∈ s.requests, clients.Requested s.displayed message
  confirmations : ∀ message ∈ s.confirmations, clients.Confirmed s.served message
  offered : ∀ before act after, s.served = before ++ act :: after → clients.own act →
    clients.Offered fresh s.displayed before act

variable {clients} {fresh : List α → α → Prop} {start : σ} {s next : State σ α κ ν ρ γ}

/-- An answer stays one with later acts. -/
theorem Answered.append {served : List α} {message : κ × ν × List α}
    (h : clients.Answered start served message) (later : List α) :
    clients.Answered start (served ++ later) message :=
  ⟨h.1.trans (List.prefix_append _ _), h.2⟩

/-- A request stays one with later answers. -/
theorem Requested.cons {displayed : List (κ × ν × List α)} {message : ρ × List α}
    (h : clients.Requested displayed message) (shown : κ × ν × List α) :
    clients.Requested (shown :: displayed) message := by
  obtain ⟨query, answer, hdisplayed, hoffered⟩ := h
  exact ⟨query, answer, List.mem_cons_of_mem _ hdisplayed, hoffered⟩

/-- What was offered stays so with later answers. -/
theorem Offered.cons {displayed : List (κ × ν × List α)} {before : List α} {act : α}
    (h : clients.Offered fresh displayed before act) (shown : κ × ν × List α) :
    clients.Offered fresh (shown :: displayed) before act := by
  obtain ⟨moment, since, query, answer, request, hbefore, hfresh, hdisplayed, hrest⟩ := h
  exact ⟨moment, since, query, answer, request, hbefore, hfresh,
    List.mem_cons_of_mem _ hdisplayed, hrest⟩

/-- A confirmation stays one with later acts. -/
theorem Confirmed.append {served : List α} {message : ρ × List α}
    (h : clients.Confirmed served message) (later : List α) :
    clients.Confirmed (served ++ later) message := by
  obtain ⟨act, hearlier, hact⟩ := h
  exact ⟨act, hearlier.trans (List.prefix_append _ _), hact⟩

/-- Nothing was sent yet. -/
theorem sound_initial (server : σ) (screens : γ) :
    clients.Sound fresh server (State.initial server screens) where
  run := .nil
  answers := by simp [State.initial]
  displayed := by simp [State.initial]
  requests := by simp [State.initial]
  confirmations := by simp [State.initial]
  offered := by simp [State.initial]

/-- An act that was offered, or is none of a client, keeps every act of a client offered. -/
theorem Sound.offered_append (h : clients.Sound fresh start s) {act : α}
    (hact : clients.own act → clients.Offered fresh s.displayed s.served act) :
    ∀ before other after, s.served ++ [act] = before ++ other :: after → clients.own other →
      clients.Offered fresh s.displayed before other := by
  intro before other after hserved hown
  rcases List.eq_nil_or_concat after with rfl | ⟨earlier, last, rfl⟩
  · obtain ⟨rfl, hsame⟩ := List.append_inj' hserved rfl
    cases hsame
    exact hact hown
  · rw [List.concat_eq_append, ← List.cons_append, ← List.append_assoc] at hserved
    exact h.offered before other earlier (List.append_inj' hserved rfl).1 hown

/-- Every step keeps the messages and the acts sound. -/
theorem Sound.step (h : clients.Sound fresh start s) {event : Event α κ ν ρ}
    (hstep : clients.Step s event next) (hfresh : Fresh fresh s event) :
    clients.Sound fresh start next := by
  cases hstep with
  | ask hasks => exact { h with }
  | answer hquery hanswer =>
      refine { h with answers := ?_ }
      intro message hmessage
      rcases List.mem_cons.mp hmessage with rfl | hold
      · exact ⟨List.prefix_refl _, s.server, h.run, hanswer⟩
      · exact h.answers message hold
  | display hanswer =>
      refine { h with
        displayed := ?_
        requests := fun message hmessage => (h.requests message hmessage).cons _
        offered := fun before act after hserved hown =>
          (h.offered before act after hserved hown).cons _ }
      intro message hmessage
      rcases List.mem_cons.mp hmessage with rfl | hold
      · exact h.answers _ hanswer
      · exact h.displayed message hold
  | request hdisplayed hoffered =>
      refine { h with requests := ?_ }
      intro message hmessage
      rcases List.mem_cons.mp hmessage with rfl | hold
      · exact ⟨_, _, hdisplayed, hoffered⟩
      · exact h.requests message hold
  | serve hrequest hserves hserver =>
      refine ⟨h.run.snoc hserver, fun message hmessage => (h.answers message hmessage).append _,
        fun message hmessage => (h.displayed message hmessage).append _, h.requests, ?_,
        h.offered_append ?_⟩
      · intro message hmessage
        split at hmessage
        · rename_i hsucceeds
          rcases List.mem_cons.mp hmessage with rfl | hold
          · exact ⟨_, List.prefix_refl _, hserves, hsucceeds⟩
          · exact (h.confirmations message hold).append _
        · exact (h.confirmations message hmessage).append _
      · intro _
        obtain ⟨query, answer, hdisplayed, hoffered⟩ := h.requests _ hrequest
        obtain ⟨⟨since, hsince⟩, -⟩ := h.displayed _ hdisplayed
        exact ⟨_, since, query, answer, _, hsince.symm, hfresh since hsince.symm, hdisplayed,
          hoffered, hserves⟩
  | other hother hserver =>
      exact ⟨h.run.snoc hserver, fun message hmessage => (h.answers message hmessage).append _,
        fun message hmessage => (h.displayed message hmessage).append _, h.requests,
        fun message hmessage => (h.confirmations message hmessage).append _,
        h.offered_append fun hown => absurd hown hother⟩
  | confirm hconfirmation => exact { h with }

/-- Every run that is fresh is sound. -/
theorem sound_of_run {server : σ} {screens : γ} {events : List (Event α κ ν ρ)}
    (h : Run (Guarded clients.Step (Fresh fresh)) (State.initial server screens) events s) :
    clients.Sound fresh server s :=
  h.invariant (sound_initial server screens) fun _ _ _ hsound hstep =>
    hsound.step hstep.1 hstep.2

/-- Without a condition on what came in between, every run is fresh. -/
theorem guarded_of_run {events : List (Event α κ ν ρ)} {initial : State σ α κ ν ρ γ}
    (h : Run clients.Step initial events s) :
    Run (Guarded clients.Step (Fresh fun _ _ => True)) initial events s := by
  refine h.mono fun state event _ hstep => ⟨hstep, ?_⟩
  cases event with
  | serve request moment act => exact fun _ _ => trivial
  | ask | answer | display | request | other | confirm => trivial

/-- The server may serve others at any time. -/
theorem exists_run_of_other {initial : State σ α κ ν ρ γ} {events : List (Event α κ ν ρ)}
    (h : Run (Guarded clients.Step (Fresh fresh)) initial events s) {act : α} {server : σ}
    (hother : ¬ clients.own act) (hstep : clients.steps s.server act server) :
    ∃ later next, Run (Guarded clients.Step (Fresh fresh)) initial later next ∧
      next.server = server :=
  ⟨_, _, h.snoc ⟨.other hother hstep, trivial⟩, rfl⟩

/-- Whatever is offered can be asked for and served before anything else is. -/
theorem exists_run_of_offers {initial : State σ α κ ν ρ γ} {events : List (Event α κ ν ρ)}
    (h : Run (Guarded clients.Step (Fresh fresh)) initial events s) {query : κ} {answer : ν}
    {request : ρ} {act : α} {server : σ} (hasks : clients.asks query)
    (hanswer : clients.answer s.server query = some answer)
    (hoffers : request ∈ clients.offers query answer) (hserves : clients.serves request act)
    (hstep : clients.steps s.server act server) (hfresh : fresh [] act) :
    ∃ later next, Run (Guarded clients.Step (Fresh fresh)) initial later next ∧
      next.server = server := by
  have hasked := h.snoc ⟨.ask hasks, trivial⟩
  have hanswered := hasked.snoc ⟨.answer List.mem_cons_self hanswer, trivial⟩
  have hdisplayed := hanswered.snoc ⟨.display List.mem_cons_self, trivial⟩
  have hrequested := hdisplayed.snoc ⟨.request List.mem_cons_self hoffers, trivial⟩
  refine ⟨_, _, hrequested.snoc ⟨.serve List.mem_cons_self hserves hstep, ?_⟩, rfl⟩
  intro since hsince
  rw [List.self_eq_append_right.mp hsince]
  exact hfresh

/-- The answer to a query can be shown before anything else is served. -/
theorem exists_run_of_answer {initial : State σ α κ ν ρ γ} {events : List (Event α κ ν ρ)}
    (h : Run clients.Step initial events s) {query : κ} {answer : ν} (hasks : clients.asks query)
    (hanswer : clients.answer s.server query = some answer) :
    ∃ later next, Run clients.Step initial later next ∧ next.server = s.server ∧
      next.served = s.served ∧ next.displayed = (query, answer, s.served) :: s.displayed := by
  have hasked := h.snoc (.ask hasks)
  have hanswered := hasked.snoc (.answer List.mem_cons_self hanswer)
  exact ⟨_, _, hanswered.snoc (.display List.mem_cons_self), rfl, rfl, rfl⟩

/-- What was once offered can be served at any later time. -/
theorem exists_run_of_displayed {initial : State σ α κ ν ρ γ} {events : List (Event α κ ν ρ)}
    (h : Run clients.Step initial events s) {query : κ} {answer : ν} {moment : List α}
    {request : ρ} {act : α} {server : σ} (hdisplayed : (query, answer, moment) ∈ s.displayed)
    (hoffers : request ∈ clients.offers query answer) (hserves : clients.serves request act)
    (hstep : clients.steps s.server act server) :
    ∃ later next, Run clients.Step initial later next ∧ next.server = server ∧
      next.served = s.served ++ [act] ∧ next.displayed = s.displayed := by
  have hrequested := h.snoc (.request hdisplayed hoffers)
  exact ⟨_, _, hrequested.snoc (.serve List.mem_cons_self hserves hstep), rfl, rfl, rfl⟩

end Clients

end TallerII.Lib
