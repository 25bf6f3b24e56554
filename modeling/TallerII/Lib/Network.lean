import Mathlib.Logic.Function.Basic
import Mathlib.Data.List.Induction
import TallerII.Lib.Run

/-!
# Networks of links between nodes

A network keeps a link for every ordered pair of nodes, or none. An act has a source and a target,
and writes the link in both directions. `after_eq` says that the link of two nodes is the one that
the last act between them left: acts between other nodes never matter, and of those between the
two only the last one does. When every act writes mirrored links, the two links of a pair always
mirror each other (`after_mirror`). Acts between different pairs commute (`apply_comm`).
-/

namespace TallerII.Lib

universe u v w

/-- How an act is read: its two nodes and the links that it leaves, from the source to the target
and back. -/
structure Linking (ε : Type u) (α : Type v) (β : Type w) where
  source : ε → α
  target : ε → α
  forward : ε → Option β
  backward : ε → Option β

namespace Linking

variable {ε : Type u} {α : Type v} {β : Type w} [DecidableEq α] (linking : Linking ε α β)

/-- A network with one link overwritten. -/
def set (network : α → α → Option β) (node other : α) (link : Option β) : α → α → Option β :=
  Function.update network node (Function.update (network node) other link)

/-- The links after one was set. -/
theorem set_apply (network : α → α → Option β) (node other left right : α) (link : Option β) :
    set network node other link left right
      = if left = node ∧ right = other then link else network left right := by
  unfold set
  by_cases hnode : left = node
  · subst hnode
    rw [Function.update_self]
    by_cases hother : right = other
    · subst hother
      simp
    · rw [Function.update_of_ne hother, if_neg fun h => hother h.2]
  · rw [Function.update_of_ne hnode, if_neg fun h => hnode h.1]

/-- A network after an act. -/
def apply (network : α → α → Option β) (act : ε) : α → α → Option β :=
  set (set network (linking.source act) (linking.target act) (linking.forward act))
    (linking.target act) (linking.source act) (linking.backward act)

/-- The network that acts leave when there were no links. -/
def after (acts : List ε) : α → α → Option β :=
  acts.foldl linking.apply fun _ _ => none

/-- The act is between the two nodes, in either direction. -/
def between (node other : α) (act : ε) : Bool :=
  (linking.source act = node ∧ linking.target act = other) ∨
    (linking.source act = other ∧ linking.target act = node)

/-- The link that an act leaves from one of its nodes to the other. -/
def seenBy (node : α) (act : ε) : Option β :=
  if linking.source act = node then linking.forward act else linking.backward act

/-- Without acts there are no links. -/
@[simp] theorem after_nil : linking.after [] = fun _ _ => none := rfl

/-- The links after one more act. -/
theorem after_append_singleton (acts : List ε) (act : ε) :
    linking.after (acts ++ [act]) = linking.apply (linking.after acts) act := by
  rw [after, List.foldl_append]
  rfl

/-- An act is between two nodes when it goes from one to the other. -/
theorem between_iff {node other : α} {act : ε} :
    linking.between node other act ↔
      (linking.source act = node ∧ linking.target act = other) ∨
        (linking.source act = other ∧ linking.target act = node) := by
  rw [between, decide_eq_true_iff]

/-- The two nodes may be named in either order. -/
theorem between_comm (node other : α) (act : ε) :
    linking.between node other act = linking.between other node act := by
  unfold between
  rw [Bool.decide_or, Bool.decide_or, Bool.or_comm]

/-- An act writes the links between its two nodes and no others. -/
theorem apply_eq (network : α → α → Option β) {act : ε}
    (hdistinct : linking.source act ≠ linking.target act) (node other : α) :
    linking.apply network act node other
      = if linking.between node other act then
        linking.seenBy node act else network node other := by
  rw [apply, set_apply, set_apply, between, seenBy]
  by_cases hback : node = linking.target act ∧ other = linking.source act
  · obtain ⟨rfl, rfl⟩ := hback
    simp [hdistinct]
  · rw [if_neg hback]
    by_cases hforward : node = linking.source act ∧ other = linking.target act
    · obtain ⟨rfl, rfl⟩ := hforward
      simp
    · have hnone : ¬ ((linking.source act = node ∧ linking.target act = other) ∨
          (linking.source act = other ∧ linking.target act = node)) := by
        rintro (⟨hsource, htarget⟩ | ⟨hsource, htarget⟩)
        · exact hforward ⟨hsource.symm, htarget.symm⟩
        · exact hback ⟨htarget.symm, hsource.symm⟩
      rw [if_neg hforward, if_neg (by simpa using hnone)]

/-- Acts between different pairs of nodes commute. -/
theorem apply_comm (network : α → α → Option β) {first second : ε}
    (hfirst : linking.source first ≠ linking.target first)
    (hsecond : linking.source second ≠ linking.target second)
    (hapart : ∀ node other, linking.between node other first →
      ¬ linking.between node other second) :
    linking.apply (linking.apply network first) second
      = linking.apply (linking.apply network second) first := by
  funext node other
  rw [apply_eq _ _ hsecond, apply_eq _ _ hfirst, apply_eq _ _ hfirst, apply_eq _ _ hsecond]
  by_cases hin : linking.between node other first
  · simp [hin, hapart node other hin]
  · simp [hin]

/-- The link of two nodes is what the last act between them left. -/
theorem after_eq {acts : List ε}
    (hdistinct : ∀ act ∈ acts, linking.source act ≠ linking.target act)
    (node other : α) :
    linking.after acts node other
      = (lastThat (linking.between node other) acts).bind (linking.seenBy node) := by
  induction acts using List.reverseRecOn with
  | nil => rfl
  | append_singleton acts act ih =>
      have hlast : linking.source act ≠ linking.target act := hdistinct act (by simp)
      have hbefore : ∀ act ∈ acts, linking.source act ≠ linking.target act := fun act hact =>
        hdistinct act (List.mem_append_left _ hact)
      rw [after_append_singleton, apply_eq _ _ hlast, lastThat_append_singleton]
      split
      · rfl
      · exact ih hbefore

/-- No node is linked to itself. -/
theorem after_self {acts : List ε}
    (hdistinct : ∀ act ∈ acts, linking.source act ≠ linking.target act)
    (node : α) : linking.after acts node node = none := by
  rw [after_eq _ hdistinct, lastThat_eq_none.mpr]
  · rfl
  · intro act hact hbetween
    rcases linking.between_iff.mp hbetween with ⟨hsource, htarget⟩ | ⟨hsource, htarget⟩ <;>
      exact hdistinct act hact (hsource.trans htarget.symm)

/-- What the two nodes of an act see of each other is mirrored when its two links are. -/
theorem seenBy_mirror {mirror : β → β} {act : ε}
    (hforward : linking.backward act = (linking.forward act).map mirror)
    (hbackward : linking.forward act = (linking.backward act).map mirror) {node other : α}
    (hdistinct : linking.source act ≠ linking.target act)
    (hbetween : linking.between node other act) :
    linking.seenBy other act = (linking.seenBy node act).map mirror := by
  unfold seenBy
  rcases linking.between_iff.mp hbetween with ⟨rfl, rfl⟩ | ⟨rfl, rfl⟩
  · rw [if_neg hdistinct, if_pos rfl, hforward]
  · rw [if_pos rfl, if_neg hdistinct, hbackward]

/-- The two links of a pair mirror each other after any acts. -/
theorem after_mirror {mirror : β → β} {acts : List ε}
    (hmirrored : ∀ act, linking.backward act = (linking.forward act).map mirror ∧
      linking.forward act = (linking.backward act).map mirror)
    (hdistinct : ∀ act ∈ acts, linking.source act ≠ linking.target act) (node other : α) :
    linking.after acts other node = (linking.after acts node other).map mirror := by
  have hkind : linking.between other node = linking.between node other :=
    funext (linking.between_comm other node)
  rw [after_eq _ hdistinct, after_eq _ hdistinct, hkind]
  cases hlast : lastThat (linking.between node other) acts with
  | none => rfl
  | some act =>
      obtain ⟨hbetween, before, after, rfl, -⟩ := lastThat_eq_some.mp hlast
      have hact : linking.source act ≠ linking.target act := hdistinct act (by simp)
      exact linking.seenBy_mirror (hmirrored act).1 (hmirrored act).2 hact hbetween

end Linking

end TallerII.Lib
