import Mathlib.Data.List.Infix

/-!
# First occurrences

`behind pattern` is what follows the first occurrence of a pattern in a sequence. A separator that
the pattern does not contain cuts the search in two (`behind_append_cons`): an occurrence lies
wholly before it or wholly after it.
-/

namespace TallerII.Lib.Occurrence

universe u

variable {α : Type u} [DecidableEq α]

/-- What follows the first occurrence of a pattern. -/
def behind (pattern : List α) : List α → Option (List α)
  | [] => if pattern = [] then some [] else none
  | c :: rest =>
    if pattern <+: c :: rest then some ((c :: rest).drop pattern.length) else behind pattern rest

variable {pattern : List α}

/-- A pattern that does not occur is not found. -/
theorem behind_eq_none {sequence : List α} (h : ¬ pattern <:+: sequence) :
    behind pattern sequence = none := by
  induction sequence with
  | nil =>
      rw [behind, if_neg]
      rintro rfl
      exact h List.infix_rfl
  | cons c rest ih =>
      rw [List.infix_cons_iff, not_or] at h
      rw [behind, if_neg h.1, ih h.2]

/-- The pattern itself. -/
theorem behind_self (h : pattern ≠ []) : behind pattern pattern = some [] := by
  cases pattern with
  | nil => exact absurd rfl h
  | cons c rest => rw [behind, if_pos List.prefix_rfl, List.drop_length]

omit [DecidableEq α] in
/-- A prefix without a separator ends before it. -/
theorem prefix_append_cons {separator : α} (h : separator ∉ pattern) (before after : List α) :
    pattern <+: before ++ separator :: after ↔ pattern <+: before := by
  constructor
  · intro hprefix
    rcases List.prefix_or_prefix_of_prefix hprefix (List.prefix_append before _) with hle | hle
    · exact hle
    · obtain ⟨middle, rfl⟩ := hle
      rw [List.prefix_append_right_inj] at hprefix
      cases middle with
      | nil => simp
      | cons c middle =>
          obtain rfl := (List.cons_prefix_cons.mp hprefix).1
          exact absurd (by simp) h
  · intro hprefix
    exact hprefix.trans (List.prefix_append _ _)

/-- A separator that the pattern does not contain cuts the search in two. -/
theorem behind_append_cons {separator : α} (hne : pattern ≠ []) (hfree : separator ∉ pattern)
    (before after : List α) :
    behind pattern (before ++ separator :: after)
      = ((behind pattern before).map (· ++ separator :: after)).or (behind pattern after) := by
  induction before with
  | nil =>
      have hprefix : ¬ pattern <+: separator :: after := by
        intro h
        exact hne (List.prefix_nil.mp ((prefix_append_cons hfree [] after).mp h))
      have hnil : behind pattern [] = none := if_neg hne
      rw [List.nil_append, hnil, Option.map_none, Option.none_or]
      exact if_neg hprefix
  | cons c before ih =>
      have hiff := prefix_append_cons hfree (c :: before) after
      rw [List.cons_append] at hiff ⊢
      rw [behind, behind]
      by_cases hprefix : pattern <+: c :: before
      · rw [if_pos (hiff.mpr hprefix), if_pos hprefix, ← List.cons_append,
          List.drop_append_of_le_length hprefix.length_le]
        rfl
      · rw [if_neg fun h => hprefix (hiff.mp h), if_neg hprefix, ih]

end TallerII.Lib.Occurrence
