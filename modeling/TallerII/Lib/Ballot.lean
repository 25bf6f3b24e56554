import TallerII.Lib.Run
import Mathlib.Data.List.Induction
import Mathlib.Data.List.Nodup

/-!
# Votes that can be taken back

A vote adds its voter to the supporters of its target, or takes the voter out again. `standing` is
the list that results when a repeated vote is ignored and a new supporter stands last. Its meaning
does not depend on the way it is computed: a voter supports a target when the last vote was an
addition (`mem_standing`), nobody stands twice (`nodup_standing`), and the order is the one in
which the additions that were not taken back were made (`standing_eq`).
-/

namespace TallerII.Lib.Ballot

universe u

/-- A vote for or against standing on the side of the target. -/
structure Vote (ι : Type u) where
  voter : ι
  target : ι
  adds : Bool
deriving Repr, DecidableEq

variable {ι : Type u} [DecidableEq ι]

/-- The supporters after one more vote. -/
def Vote.apply (vote : Vote ι) (supporters : List ι) : List ι :=
  if vote.adds then
    if vote.voter ∈ supporters then supporters else supporters ++ [vote.voter]
  else supporters.filter (· ≠ vote.voter)

/-- The supporters of a target after the votes. -/
def standing (target : ι) (votes : List (Vote ι)) : List ι :=
  votes.foldl (fun supporters vote =>
    if vote.target = target then vote.apply supporters else supporters) []

/-- Without votes nobody supports anybody. -/
@[simp] theorem standing_nil (target : ι) : standing target [] = [] := rfl

/-- The last vote applies to its own target. -/
theorem standing_append_singleton (target : ι) (votes : List (Vote ι)) (vote : Vote ι) :
    standing target (votes ++ [vote])
      = if vote.target = target then vote.apply (standing target votes)
        else standing target votes := by
  rw [standing, List.foldl_append]
  rfl

/-- Without a vote for or against the target nobody stands. -/
theorem standing_of_none {target : ι} {votes : List (Vote ι)}
    (h : ∀ vote ∈ votes, vote.target ≠ target) : standing target votes = [] := by
  induction votes using List.reverseRecOn with
  | nil => rfl
  | append_singleton votes vote ih =>
      rw [standing_append_singleton, if_neg (h vote (by simp))]
      exact ih fun other hother => h other (List.mem_append_left _ hother)

/-- Who supports a target after a vote. -/
theorem mem_apply {vote : Vote ι} {supporters : List ι} {voter : ι} :
    voter ∈ vote.apply supporters ↔
      if vote.voter = voter then vote.adds = true else voter ∈ supporters := by
  unfold Vote.apply
  by_cases hadds : vote.adds
  · by_cases hsame : vote.voter = voter
    · subst hsame
      rw [if_pos hadds, if_pos rfl]
      split
      · rename_i hmem
        simp [hmem, hadds]
      · simp [hadds]
    · rw [if_pos hadds, if_neg hsame]
      split
      · exact Iff.rfl
      · simp [Ne.symm hsame]
  · by_cases hsame : vote.voter = voter
    · simp [hadds, hsame]
    · simp [hadds, hsame, Ne.symm hsame]

/-- A vote repeats no supporter. -/
theorem nodup_apply {vote : Vote ι} {supporters : List ι} (h : supporters.Nodup) :
    (vote.apply supporters).Nodup := by
  unfold Vote.apply
  split
  · split
    · exact h
    · rename_i hnew
      refine List.nodup_append.mpr ⟨h, List.nodup_singleton _, ?_⟩
      intro supporter hsupporter other hother hsame
      rw [hsame, List.mem_singleton.mp hother] at hsupporter
      exact hnew hsupporter
  · exact h.filter _

/-- The votes of one voter about one target. -/
def about (voter target : ι) (vote : Vote ι) : Bool :=
  vote.voter = voter ∧ vote.target = target

/-- A voter supports a target iff the last vote of the voter about the target was an addition. -/
theorem mem_standing {voter target : ι} {votes : List (Vote ι)} :
    voter ∈ standing target votes ↔
      ∃ vote, lastThat (about voter target) votes = some vote ∧ vote.adds = true := by
  induction votes using List.reverseRecOn with
  | nil => simp
  | append_singleton votes vote ih =>
      rw [standing_append_singleton, lastThat_append_singleton]
      by_cases htarget : vote.target = target
      · rw [if_pos htarget, mem_apply]
        by_cases hvoter : vote.voter = voter
        · simp [about, htarget, hvoter]
        · simp [about, hvoter, ih]
      · simp [about, htarget, ih]

/-- Nobody stands twice. -/
theorem nodup_standing (target : ι) (votes : List (Vote ι)) : (standing target votes).Nodup := by
  induction votes using List.reverseRecOn with
  | nil => exact List.nodup_nil
  | append_singleton votes vote ih =>
      rw [standing_append_singleton]
      split
      · exact nodup_apply ih
      · exact ih

/-! ## The order -/

/-- A vote takes the voter out again. -/
def Revokes (voter target : ι) (vote : Vote ι) : Prop :=
  vote.voter = voter ∧ vote.target = target ∧ vote.adds = false

/-- Whether a vote takes support back can be computed. -/
instance (voter target : ι) (vote : Vote ι) : Decidable (Revokes voter target vote) :=
  inferInstanceAs (Decidable (_ ∧ _ ∧ _))

/-- The voters of the additions that no later vote took back, in the order of the votes. -/
def lasting (target : ι) : List (Vote ι) → List ι
  | [] => []
  | vote :: later =>
    if vote.target = target ∧ vote.adds = true ∧
      ∀ other ∈ later, ¬ Revokes vote.voter target other
    then vote.voter :: lasting target later
    else lasting target later

/-- The last vote among those that last. -/
theorem lasting_append_singleton (target : ι) (votes : List (Vote ι)) (vote : Vote ι) :
    lasting target (votes ++ [vote])
      = if vote.target = target then
          if vote.adds then lasting target votes ++ [vote.voter]
          else (lasting target votes).filter (· ≠ vote.voter)
        else lasting target votes := by
  induction votes with
  | nil =>
      by_cases htarget : vote.target = target
      · cases hadds : vote.adds <;> simp [lasting, htarget, hadds]
      · simp [lasting, htarget]
  | cons first votes ih =>
      have hlater : (∀ other ∈ votes ++ [vote], ¬ Revokes first.voter target other) ↔
          (∀ other ∈ votes, ¬ Revokes first.voter target other) ∧
            ¬ Revokes first.voter target vote := by
        rw [List.forall_mem_append, List.forall_mem_singleton]
      rw [List.cons_append, lasting, ih]
      simp only [hlater]
      by_cases htarget : vote.target = target
      · cases hadds : vote.adds with
        | true =>
            -- an addition revokes nothing
            have hkeeps : ¬ Revokes first.voter target vote := by
              rintro ⟨-, -, hgone⟩
              rw [hadds] at hgone
              cases hgone
            simp only [hkeeps, not_false_eq_true, and_true, if_pos htarget, if_true, lasting]
            split <;> rfl
        | false =>
            have hrevokes : Revokes first.voter target vote ↔ vote.voter = first.voter := by
              simp [Revokes, htarget, hadds]
            simp only [hrevokes, if_pos htarget, Bool.false_eq_true, if_false, lasting]
            by_cases hvoter : vote.voter = first.voter
            · -- the first vote, if it was an addition, is taken back by the last one
              rw [if_neg fun h => h.2.2.2 hvoter]
              split <;> simp [hvoter]
            · simp only [hvoter, not_false_eq_true, and_true]
              split
              · rw [List.filter_cons_of_pos (by simpa using Ne.symm hvoter)]
              · rfl
      · -- a vote for another target changes nothing here
        have hkeeps : ¬ Revokes first.voter target vote := fun h => htarget h.2.1
        simp only [hkeeps, not_false_eq_true, and_true, if_neg htarget, lasting]

/-- Repetitions can be dropped before or after a filter. -/
theorem eraseDups_filter (keeps : ι → Bool) (items : List ι) :
    (items.filter keeps).eraseDups = items.eraseDups.filter keeps := by
  induction hlength : items.length using Nat.strongRecOn generalizing items with
  | ind n ih =>
      cases items with
      | nil => rfl
      | cons first items =>
          have hshorter : (items.filter fun item => !item == first).length < n := by
            have hle := List.length_filter_le (fun item => !item == first) items
            rw [List.length_cons] at hlength
            omega
          rw [List.eraseDups_cons]
          cases hkeeps : keeps first with
          | true =>
              rw [List.filter_cons_of_pos hkeeps, List.filter_cons_of_pos hkeeps,
                List.eraseDups_cons, ← ih _ hshorter _ rfl, List.filter_comm]
          | false =>
              have hgone : (items.filter fun item => !item == first).filter keeps
                  = items.filter keeps := by
                rw [List.filter_filter]
                refine List.filter_congr fun item _ => ?_
                by_cases hsame : item = first
                · simp [hsame, hkeeps]
                · simp [hsame]
              rw [List.filter_cons_of_neg (by simp [hkeeps]),
                List.filter_cons_of_neg (by simp [hkeeps]), ← ih _ hshorter _ rfl, hgone]

/-- The supporters stand in the order of their first additions since they last stood out. -/
theorem standing_eq (target : ι) (votes : List (Vote ι)) :
    standing target votes = (lasting target votes).eraseDups := by
  induction votes using List.reverseRecOn with
  | nil => rfl
  | append_singleton votes vote ih =>
      rw [standing_append_singleton, lasting_append_singleton, ih]
      split
      · cases hadds : vote.adds with
        | true =>
            rw [Vote.apply, if_pos hadds, if_pos rfl, List.eraseDups_append]
            by_cases hmem : vote.voter ∈ lasting target votes
            · rw [if_pos (List.mem_eraseDups.mpr hmem)]
              simp [List.removeAll, hmem]
            · rw [if_neg fun h => hmem (List.mem_eraseDups.mp h)]
              simp [List.removeAll, hmem, List.eraseDups_cons]
        | false =>
            rw [Vote.apply, hadds, if_neg Bool.false_ne_true, if_neg Bool.false_ne_true,
              eraseDups_filter]
      · rfl

end TallerII.Lib.Ballot
