import Mathlib.Data.List.Basic
import Mathlib.Data.List.ReduceOption

/-!
# Searches by several criteria

A criterion can be looked up, or it can narrow what earlier criteria found. A search goes through
its criteria in a fixed order: the first one that is present is looked up, and every later one
narrows. `mem_answer_pair` says when two criteria give what both give alone: when looking up the
second finds what it keeps, among what the first finds.
-/

namespace TallerII.Lib.Criteria

universe u v

variable {ε : Type u} {α : Type v}

/-- A criterion in its two roles. -/
structure Criterion (ε : Type u) (α : Type v) where
  lookup : Except ε (List α)
  keep : Except ε (α → Bool)

/-- Narrows what was found. -/
def narrow (found : List α) (criterion : Criterion ε α) : Except ε (List α) :=
  criterion.keep.map found.filter

/-- One stage of a search: a criterion that is present is looked up while there is no result yet,
and narrows the result once there is one. -/
def stage (criterion : Option (Criterion ε α)) (found : Option (List α)) :
    Except ε (Option (List α)) :=
  match criterion, found with
  | none, found => .ok found
  | some criterion, none => criterion.lookup.map some
  | some criterion, some found => (narrow found criterion).map some

/-- The answer to the criteria that are present, in order. -/
def answer : List (Criterion ε α) → Except ε (List α)
  | [] => .ok []
  | first :: rest => first.lookup >>= rest.foldlM narrow

/-- What a search returned; one that threw returned nothing. -/
def returned : Except ε (List α) → List α
  | .ok found => found
  | .error _ => []

/-- What was found is returned. -/
@[simp] theorem returned_ok (found : List α) : returned (.ok found : Except ε (List α)) = found :=
  rfl

/-- A failure returns nothing. -/
@[simp] theorem returned_error (e : ε) : returned (.error e : Except ε (List α)) = [] := rfl

/-- Once there is a result, the stages narrow it by the criteria that are present. -/
theorem foldlM_stage_some (criteria : List (Option (Criterion ε α))) (found : List α) :
    criteria.foldlM (fun found criterion => stage criterion found) (some found)
      = (criteria.reduceOption.foldlM narrow found).map some := by
  induction criteria generalizing found with
  | nil => rfl
  | cons criterion criteria ih =>
      rw [List.foldlM_cons]
      cases criterion with
      | none => exact ih found
      | some criterion =>
          rw [List.reduceOption_cons_of_some, List.foldlM_cons]
          simp only [stage]
          cases hkept : narrow found criterion with
          | error e => rfl
          | ok kept => exact ih kept

/-- A search answers the criteria that are present. -/
theorem foldlM_stage_none (criteria : List (Option (Criterion ε α))) :
    (criteria.foldlM (fun found criterion => stage criterion found) none).map
        (fun found : Option (List α) => found.getD [])
      = answer criteria.reduceOption := by
  induction criteria with
  | nil => rfl
  | cons criterion criteria ih =>
      rw [List.foldlM_cons]
      cases criterion with
      | none => exact ih
      | some criterion =>
          rw [List.reduceOption_cons_of_some, answer]
          cases hfound : criterion.lookup with
          | error e =>
              simp only [stage, hfound]
              rfl
          | ok found =>
              simp only [stage, hfound]
              show Except.map (fun found : Option (List α) => found.getD [])
                (criteria.foldlM (fun found criterion => stage criterion found) (some found))
                  = criteria.reduceOption.foldlM narrow found
              rw [foldlM_stage_some]
              cases criteria.reduceOption.foldlM narrow found <;> rfl

/-- Two criteria give what each of them gives alone, exactly when the second one finds what it
keeps, among what the first one finds. -/
theorem mem_answer_pair {first second : Criterion ε α} {keep : α → Bool}
    (hkeep : second.keep = .ok keep) :
    (∀ found, found ∈ returned (answer [first, second]) ↔
      found ∈ returned (answer [first]) ∧ found ∈ returned (answer [second])) ↔
      ∀ found ∈ returned first.lookup, keep found = true ↔ found ∈ returned second.lookup := by
  have halone : ∀ criterion : Criterion ε α, answer [criterion] = criterion.lookup := by
    intro criterion
    rw [answer]
    cases criterion.lookup <;> rfl
  have hboth : returned (answer [first, second]) = (returned first.lookup).filter keep := by
    rw [answer]
    cases first.lookup with
    | error e => rfl
    | ok found =>
        show returned ([second].foldlM narrow found) = found.filter keep
        rw [List.foldlM_cons, narrow, hkeep]
        rfl
  simp only [halone, hboth, List.mem_filter]
  constructor
  · intro h found hfirst
    constructor
    · intro hkept
      exact ((h found).mp ⟨hfirst, hkept⟩).2
    · intro hsecond
      exact ((h found).mpr ⟨hfirst, hsecond⟩).2
  · intro h found
    constructor
    · rintro ⟨hfirst, hkept⟩
      exact ⟨hfirst, (h found hfirst).mp hkept⟩
    · rintro ⟨hfirst, hsecond⟩
      exact ⟨hfirst, (h found hfirst).mpr hsecond⟩

end TallerII.Lib.Criteria
