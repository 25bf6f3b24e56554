import Mathlib.Tactic.Common

/-!
# Loops that may fail

A body takes a state and fails, ends the loop with a result, or goes on with another state. `run`
turns a loop so often at most as its fuel says. Where the states that a body goes on with are
smaller, the fuel does not matter as long as there is enough of it (`run_eq_of_lt`). `ok_of_run`
is the rule of invariants, and `run_of_turn` and `run_of_end` follow a loop turn by turn.
-/

namespace TallerII.Lib.Loop

variable {ε σ β : Type*}

/-- A loop over a body, with a failure for the case that the fuel is used up. -/
def run (exhausted : ε) (body : σ → Except ε (β ⊕ σ)) : Nat → σ → Except ε β
  | 0, _ => .error exhausted
  | fuel + 1, state =>
    match body state with
    | .error failure => .error failure
    | .ok (.inl result) => .ok result
    | .ok (.inr next) => run exhausted body fuel next

variable {exhausted : ε} {body : σ → Except ε (β ⊕ σ)}

/-- A turn that ends the loop. -/
theorem run_of_end {state : σ} {result : β} (h : body state = .ok (.inl result)) (fuel : Nat) :
    run exhausted body (fuel + 1) state = .ok result := by
  rw [run, h]

/-- A turn, and the rest of the loop. -/
theorem run_of_turn {state next : σ} (h : body state = .ok (.inr next)) (fuel : Nat) :
    run exhausted body (fuel + 1) state = run exhausted body fuel next := by
  rw [run, h]

/-- A turn that fails. -/
theorem run_of_error {state : σ} {failure : ε} (h : body state = .error failure) (fuel : Nat) :
    run exhausted body (fuel + 1) state = .error failure := by
  rw [run, h]

/-- The states that a body goes on with are smaller. -/
def Decreasing (size : σ → Nat) (body : σ → Except ε (β ⊕ σ)) : Prop :=
  ∀ {state next}, body state = .ok (.inr next) → size next < size state

/-- Enough fuel is as good as more of it. -/
theorem run_eq_of_lt {size : σ → Nat} (hbody : Decreasing size body) {state : σ} {fuel more : Nat}
    (hfuel : size state < fuel) (hmore : fuel ≤ more) :
    run exhausted body more state = run exhausted body fuel state := by
  induction fuel generalizing state more with
  | zero => cases hfuel
  | succ fuel ih =>
      obtain ⟨more, rfl⟩ := Nat.exists_eq_add_of_le' hmore
      cases hturn : body state with
      | error failure => rw [← Nat.add_assoc, run_of_error hturn, run_of_error hturn]
      | ok outcome =>
          cases outcome with
          | inl result => rw [← Nat.add_assoc, run_of_end hturn, run_of_end hturn]
          | inr next =>
              have hsmaller := hbody hturn
              rw [← Nat.add_assoc, run_of_turn hturn, run_of_turn hturn]
              exact ih (by omega) (Nat.le_add_left fuel more)

/-- An invariant of the states and what it says about the results. -/
theorem ok_of_run (Inv : σ → Prop) (Post : β → Prop)
    (hturn : ∀ {state next}, Inv state → body state = .ok (.inr next) → Inv next)
    (hend : ∀ {state result}, Inv state → body state = .ok (.inl result) → Post result)
    {fuel : Nat} {state : σ} {result : β} (hstate : Inv state)
    (h : run exhausted body fuel state = .ok result) : Post result := by
  induction fuel generalizing state with
  | zero => cases h
  | succ fuel ih =>
      cases hbody : body state with
      | error failure =>
          rw [run_of_error hbody] at h
          cases h
      | ok outcome =>
          cases outcome with
          | inl found =>
              rw [run_of_end hbody] at h
              cases h
              exact hend hstate hbody
          | inr next =>
              rw [run_of_turn hbody] at h
              exact ih (hturn hstate hbody) h

end TallerII.Lib.Loop
