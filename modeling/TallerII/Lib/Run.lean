import Mathlib.Data.List.Basic

/-!
# Runs of a labelled transition relation

A `Run` is a finite sequence of labelled transitions from a start state, recorded with the labels
in the order in which they happened. The rules below turn what one step preserves into what a
whole run preserves: `Run.invariant` for facts about states and `Run.history` for facts that
relate the state to the labels so far. `lastThat` is the last label of a kind, for histories in
which a later label overrides an earlier one.
-/

namespace TallerII.Lib

universe u v

variable {σ : Type u} {ε : Type v}

/-- Finitely many transitions from `start`, with their labels in order. -/
inductive Run (step : σ → ε → σ → Prop) (start : σ) : List ε → σ → Prop where
  | nil : Run step start [] start
  | snoc {events : List ε} {state next : σ} {event : ε} :
      Run step start events state → step state event next →
      Run step start (events ++ [event]) next

/-- A transition taken only when the guard holds of the state before it. -/
def Guarded (step : σ → ε → σ → Prop) (guard : σ → ε → Prop) : σ → ε → σ → Prop :=
  fun state event next => step state event next ∧ guard state event

namespace Run

variable {step : σ → ε → σ → Prop} {start state : σ} {events : List ε}

/-- A property of the start that every step preserves holds after every run. -/
theorem invariant {Inv : σ → Prop} (hstart : Inv start)
    (hstep : ∀ state event next, Inv state → step state event next → Inv next)
    (h : Run step start events state) : Inv state := by
  induction h with
  | nil => exact hstart
  | snoc _ hlast ih => exact hstep _ _ _ ih hlast

/-- A relation between the labels so far and the state, preserved by every step. -/
theorem history {Inv : List ε → σ → Prop} (hstart : Inv [] start)
    (hstep : ∀ events state event next, Inv events state → step state event next →
      Inv (events ++ [event]) next)
    (h : Run step start events state) : Inv events state := by
  induction h with
  | nil => exact hstart
  | snoc _ hlast ih => exact hstep _ _ _ _ ih hlast

/-- The last transition of a run. -/
theorem of_concat {event : ε} (h : Run step start (events ++ [event]) state) :
    ∃ middle, Run step start events middle ∧ step middle event state := by
  generalize hall : events ++ [event] = all at h
  cases h with
  | nil => simp at hall
  | snoc hbefore hlast =>
      obtain ⟨rfl, hevent⟩ := List.append_inj' hall rfl
      cases hevent
      exact ⟨_, hbefore, hlast⟩

/-- A run of a stronger transition relation is a run of a weaker one. -/
theorem mono {weaker : σ → ε → σ → Prop}
    (himp : ∀ state event next, step state event next → weaker state event next)
    (h : Run step start events state) : Run weaker start events state := by
  induction h with
  | nil => exact .nil
  | snoc _ hlast ih => exact ih.snoc (himp _ _ _ hlast)

/-- Forgetting the guard of a guarded run. -/
theorem of_guarded {guard : σ → ε → Prop} (h : Run (Guarded step guard) start events state) :
    Run step start events state :=
  h.mono fun _ _ _ hstep => hstep.1

section Exact

variable {guard : σ → ε → Prop} {Aux Inv : σ → Prop}

/-- Guarded runs keep a property that every step keeps when its guard holds. `Aux` is what every
run has anyway. -/
theorem invariant_of_guarded (haux : Aux start)
    (hkeep : ∀ state event next, Aux state → step state event next → Aux next)
    (hstart : Inv start)
    (hguarded : ∀ state event next, Aux state → Inv state → step state event next →
      guard state event → Inv next)
    (h : Run (Guarded step guard) start events state) : Aux state ∧ Inv state := by
  induction h with
  | nil => exact ⟨haux, hstart⟩
  | snoc _ hlast ih =>
      exact ⟨hkeep _ _ _ ih.1 hlast.1, hguarded _ _ _ ih.1 ih.2 hlast.1 hlast.2⟩

/-- When every step keeps a property exactly if its guard holds, the guarded runs are the runs
that have the property throughout. -/
theorem guarded_iff (haux : Aux start)
    (hkeep : ∀ state event next, Aux state → step state event next → Aux next)
    (hstart : Inv start)
    (hexact : ∀ state event next, Aux state → Inv state → step state event next →
      (Inv next ↔ guard state event)) :
    Run (Guarded step guard) start events state ↔
      Run (fun state event next => step state event next ∧ Inv next) start events state := by
  constructor
  · intro h
    induction h with
    | nil => exact .nil
    | snoc hbefore hlast ih =>
        obtain ⟨haux, hinv⟩ := invariant_of_guarded haux hkeep hstart
          (fun _ _ _ haux hinv hstep => (hexact _ _ _ haux hinv hstep).mpr) hbefore
        exact ih.snoc ⟨hlast.1, (hexact _ _ _ haux hinv hlast.1).mpr hlast.2⟩
  · intro h
    suffices hinv : Run (Guarded step guard) start events state ∧ Aux state ∧
        Inv state from hinv.1
    induction h with
    | nil => exact ⟨.nil, haux, hstart⟩
    | snoc _ hlast ih =>
        obtain ⟨hrun, hbefore, hinv⟩ := ih
        have hguard := (hexact _ _ _ hbefore hinv hlast.1).mp hlast.2
        exact ⟨hrun.snoc ⟨hlast.1, hguard⟩, hkeep _ _ _ hbefore hlast.1, hlast.2⟩

end Exact

end Run

/-! ## The last label of a kind -/

/-- The last label that satisfies a predicate. -/
def lastThat (kind : ε → Bool) (events : List ε) : Option ε :=
  events.reverse.find? kind

/-- There is no last label yet. -/
@[simp] theorem lastThat_nil (kind : ε → Bool) : lastThat kind [] = none := rfl

/-- The last label is the new one when it is of the kind. -/
@[simp] theorem lastThat_append_singleton (kind : ε → Bool) (events : List ε) (event : ε) :
    lastThat kind (events ++ [event])
      = if kind event then some event else lastThat kind events := by
  rw [lastThat, List.reverse_append, List.reverse_singleton, List.singleton_append,
    List.find?_cons]
  cases kind event <;> rfl

/-- Labels of other kinds leave the last one of a kind. -/
theorem lastThat_append_of_none {kind : ε → Bool} {events later : List ε}
    (hlater : ∀ event ∈ later, ¬ kind event) :
    lastThat kind (events ++ later) = lastThat kind events := by
  have hnone : later.reverse.find? kind = none := by
    rw [List.find?_eq_none]
    exact fun event hevent => hlater event (List.mem_reverse.mp hevent)
  rw [lastThat, List.reverse_append, List.find?_append, hnone]
  rfl

/-- There is no last label when none is of the kind. -/
theorem lastThat_eq_none {kind : ε → Bool} {events : List ε} :
    lastThat kind events = none ↔ ∀ event ∈ events, ¬ kind event := by
  rw [lastThat, List.find?_eq_none]
  simp

/-- The last label of a kind is followed by none of that kind. -/
theorem lastThat_eq_some {kind : ε → Bool} {events : List ε} {event : ε} :
    lastThat kind events = some event ↔
      kind event ∧ ∃ before after, events = before ++ event :: after ∧
        ∀ later ∈ after, ¬ kind later := by
  rw [lastThat, List.find?_eq_some_iff_append]
  constructor
  · rintro ⟨hkind, after, before, hevents, hafter⟩
    refine ⟨hkind, before.reverse, after.reverse, ?_, ?_⟩
    · rw [← List.reverse_reverse events, hevents]
      simp
    · intro later hlater
      simpa using hafter later (List.mem_reverse.mp hlater)
  · rintro ⟨hkind, before, after, rfl, hafter⟩
    refine ⟨hkind, after.reverse, before.reverse, by simp, ?_⟩
    intro later hlater
    simpa using hafter later (List.mem_reverse.mp hlater)

end TallerII.Lib
