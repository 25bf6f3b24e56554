import Mathlib.Tactic.Common

/-!
# Lists with a separator

`Separated item separator` relates a list that is not empty to the texts of its items with a
separator between two of them. The relation of the items may be changed (`Separated.imp`), and a
text that `intercalate` makes of the items is one of theirs (`separated_intercalate`).
-/

namespace TallerII.Lib

variable {α β : Type*} {item : α → List Char → Prop} {separator : Char}

/-- The texts of items with a separator between them. -/
inductive Separated (item : α → List Char → Prop) (separator : Char) :
    List α → List Char → Prop where
  | single {a : α} {text : List Char} (h : item a text) : Separated item separator [a] text
  | cons {a : α} {as : List α} {text rest : List Char} (h : item a text)
      (hrest : Separated item separator as rest) :
      Separated item separator (a :: as) (text ++ separator :: rest)

namespace Separated

/-- The items one after another, where each stands for something else. -/
theorem map_imp {f : α → β} {other : β → List Char → Prop}
    (himp : ∀ a text, item a text → other (f a) text)
    {as : List α} {text : List Char} (h : Separated item separator as text) :
    Separated other separator (as.map f) text := by
  induction h with
  | single h => exact .single (himp _ _ h)
  | cons h _ ih => exact .cons (himp _ _ h) ih

/-- The first item, and what may replace its text. -/
theorem exists_head {as : List α} {text : List Char} (h : Separated item separator as text) :
    ∃ a first behind, item a first ∧ text = first ++ behind ∧
      ∀ other, item a other → Separated item separator as (other ++ behind) := by
  cases h with
  | @single a text h =>
      refine ⟨a, text, [], h, (List.append_nil _).symm, fun other hother => ?_⟩
      rw [List.append_nil]
      exact .single hother
  | @cons a as text rest h hrest =>
      exact ⟨a, text, separator :: rest, h, rfl, fun other hother => .cons hother hrest⟩

/-- What may be put behind each item may be put behind the last one. -/
theorem append_last {back : List Char} (hback : ∀ a text, item a text → item a (text ++ back))
    {as : List α}
    {text : List Char} (h : Separated item separator as text) :
    Separated item separator as (text ++ back) := by
  induction h with
  | single h => exact .single (hback _ _ h)
  | cons h _ ih =>
      rw [List.append_assoc, List.cons_append]
      exact .cons h ih

/-- There is a character between two items. -/
theorem length_le {as : List α} {text : List Char} (h : Separated item separator as text) :
    as.length ≤ text.length + 1 := by
  induction h with
  | single h => exact Nat.le_add_left 1 _
  | cons h _ ih =>
      simp only [List.length_cons, List.length_append]
      omega

end Separated

/-- Written items with separators between them. -/
theorem separated_intercalate {write : α → List Char} {as : List α} (hne : as ≠ [])
    (h : ∀ a ∈ as, item a (write a)) :
    Separated item separator as ([separator].intercalate (as.map write)) := by
  induction as with
  | nil => exact absurd rfl hne
  | cons a as ih =>
      have hfirst := h a List.mem_cons_self
      cases as with
      | nil =>
          rw [List.map_singleton, List.intercalate_singleton]
          exact .single hfirst
      | cons b as =>
          have hrest := ih (List.cons_ne_nil _ _) fun a ha => h a (List.mem_cons_of_mem _ ha)
          rw [List.map_cons, List.map_cons, List.intercalate_cons_cons, List.append_assoc,
            ← List.map_cons]
          exact .cons hfirst hrest

/-- Characters behind each separator may be counted to the texts. -/
theorem intercalate_append (front : List Char) {texts : List (List Char)} (hne : texts ≠ []) :
    front ++ (separator :: front).intercalate texts
      = [separator].intercalate (texts.map (front ++ ·)) := by
  induction texts with
  | nil => exact absurd rfl hne
  | cons text texts ih =>
      cases texts with
      | nil => simp
      | cons other texts =>
          have hrest := ih (List.cons_ne_nil _ _)
          rw [List.map_cons] at hrest
          rw [List.intercalate_cons_cons, List.map_cons, List.map_cons,
            List.intercalate_cons_cons, ← hrest]
          simp only [List.append_assoc, List.cons_append, List.nil_append]

end TallerII.Lib
