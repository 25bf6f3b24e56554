import Mathlib.Logic.Relation
import TallerII.Lib.Run

/-!
# What a computation can leave

A computation over a state may throw, and keeps what it changed before it threw. `Within R` says
that `R` relates every state to the one that the computation leaves, whatever it returns or
throws. For a preorder `R` the rules follow the shape of the computation: each step stays within
`R`, so the whole does. `Returns` collects the values that can come out of a step, for the steps
behind it.
-/

namespace TallerII.Lib

universe u

variable {σ ε α β : Type u} {R : σ → σ → Prop}

/-- The relation holds between a state and the one that the computation leaves. -/
def Within (R : σ → σ → Prop) (action : ExceptT ε (StateM σ) α) : Prop :=
  ∀ state, R state (action.run.run state).2

/-- The computation can return the value. -/
def Returns (action : ExceptT ε (StateM σ) α) (value : α) : Prop :=
  ∃ state, (action.run.run state).1 = .ok value

namespace Within

/-- A computation that stays within a relation stays within a weaker one. -/
theorem mono {S : σ → σ → Prop} {action : ExceptT ε (StateM σ) α}
    (hweaker : ∀ state next, R state next → S state next) (h : Within R action) :
    Within S action :=
  fun state => hweaker _ _ (h state)

/-- A choice keeps within a relation when both branches do. -/
theorem ite {condition : Prop} [Decidable condition] {left right : ExceptT ε (StateM σ) α}
    (hleft : condition → Within R left) (hright : ¬ condition → Within R right) :
    Within R (if condition then left else right) := by
  split
  · exact hleft ‹_›
  · exact hright ‹_›

variable [IsPreorder σ R]

/-- A computation that leaves the state alone. -/
theorem of_unchanged {action : ExceptT ε (StateM σ) α}
    (h : ∀ state, (action.run.run state).2 = state) : Within R action := by
  intro state
  rw [h]
  exact refl_of R state

/-- A value changes nothing. -/
theorem pure (value : α) : Within R (pure value : ExceptT ε (StateM σ) α) :=
  of_unchanged fun _ => rfl

/-- Neither does an exception. -/
theorem throw (e : ε) : Within R (throw e : ExceptT ε (StateM σ) α) :=
  of_unchanged fun _ => rfl

/-- A sequence stays within the relation when its first part does and, for every value that this
can return, the rest does. -/
theorem bind {first : ExceptT ε (StateM σ) α} {rest : α → ExceptT ε (StateM σ) β}
    (hfirst : Within R first) (hrest : ∀ value, Returns first value → Within R (rest value)) :
    Within R (first >>= rest) := by
  intro state
  have hbefore := hfirst state
  show R state ((ExceptT.bindCont rest (first.run.run state).1).run (first.run.run state).2).2
  cases hresult : (first.run.run state).1 with
  | error e => exact hbefore
  | ok value => exact trans_of R hbefore (hrest value ⟨state, hresult⟩ _)

end Within

/-- What every step keeps, sequences of steps keep. -/
theorem reflTransGen_invariant {step : σ → σ → Prop} {Inv : σ → Prop}
    (hstep : ∀ state next, Inv state → step state next → Inv next) {state next : σ}
    (hstate : Inv state) (h : Relation.ReflTransGen step state next) : Inv next := by
  induction h with
  | refl => exact hstate
  | tail _ hlast ih => exact hstep _ _ ih hlast

/-- Steps that keep an invariant and stay within a preorder: so do sequences of them. -/
theorem reflTransGen_within {step : σ → σ → Prop} {Inv : σ → Prop} [IsPreorder σ R]
    (hstep : ∀ state next, Inv state → step state next → Inv next ∧ R state next)
    {state next : σ} (hstate : Inv state) (h : Relation.ReflTransGen step state next) :
    Inv next ∧ R state next := by
  refine @reflTransGen_invariant _ _ (fun reached => Inv reached ∧ R state reached) ?_ _ _
    ⟨hstate, refl_of R state⟩ h
  intro reached last hreached hlast
  obtain ⟨hnext, hrelated⟩ := hstep _ _ hreached.1 hlast
  exact ⟨hnext, trans_of R hreached.2 hrelated⟩

/-- Runs of such steps. -/
theorem Run.within {ε : Type u} {step : σ → ε → σ → Prop} {Inv : σ → Prop} [IsPreorder σ R]
    (hstep : ∀ state event next, Inv state → step state event next → Inv next ∧ R state next)
    {start state : σ} {events : List ε} (hstart : Inv start) (h : Run step start events state) :
    Inv state ∧ R start state := by
  refine @Run.invariant _ _ _ _ _ _ (fun state => Inv state ∧ R start state)
    ⟨hstart, refl_of R start⟩ ?_ h
  intro state event next hstate hlast
  obtain ⟨hnext, hrelated⟩ := hstep _ _ _ hstate.1 hlast
  exact ⟨hnext, trans_of R hstate.2 hrelated⟩

end TallerII.Lib
