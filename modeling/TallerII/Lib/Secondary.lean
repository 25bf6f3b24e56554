import Mathlib.Logic.Basic

/-!
# Secondary indices

An index beside a table of records: under a second key of a record it keeps the record's own key.
The table is a predicate on records, and the index a partial function. `Indexes` says that the
index has one entry for every record and no other ones. It survives removing a record and
inserting one, as long as no two records share their second key.
-/

namespace TallerII.Lib.Secondary

universe u v w

variable {ρ : Type u} {κ : Type v} {ν : Type w} {own : ρ → ν} {second : ρ → κ}
  {table rest : ρ → Prop} {index after : κ → Option ν} {record : ρ}

/-- The index leads from the second key of every record to its own key, and from nothing else. -/
def Indexes (own : ρ → ν) (second : ρ → κ) (table : ρ → Prop) (index : κ → Option ν) : Prop :=
  ∀ k value, index k = some value ↔
    ∃ record, table record ∧ second record = k ∧ own record = value

/-- No two records share a second key. -/
def Separates (own : ρ → ν) (second : ρ → κ) (table : ρ → Prop) : Prop :=
  ∀ record other, table record → table other → second record = second other →
    own record = own other

/-- Nothing indexes nothing. -/
theorem indexes_empty (hindex : ∀ k, index k = none) (htable : ∀ record, ¬ table record) :
    Indexes own second table index := by
  intro k value
  simp [hindex, htable]

variable [DecidableEq κ]

/-- Removing a record and its entry. -/
theorem Indexes.remove (h : Indexes own second table index)
    (hseparates : Separates own second table)
    (hrecord : table record)
    (hrest : ∀ other, rest other ↔ table other ∧ own other ≠ own record)
    (hafter : ∀ k, after k = if second record = k then none else index k)
    (honce : ∀ other, table other → own other = own record → other = record) :
    Indexes own second rest after := by
  intro k value
  rw [hafter]
  split
  · rename_i hkey
    constructor
    · intro hnone
      cases hnone
    · rintro ⟨other, hother, hsame, -⟩
      obtain ⟨hin, hne⟩ := (hrest other).mp hother
      exact absurd (hseparates other record hin hrecord (hsame.trans hkey.symm)) hne
  · rename_i hkey
    rw [h k value]
    constructor
    · rintro ⟨other, hin, rfl, hvalue⟩
      have hne : own other ≠ own record := by
        intro hsame
        rw [honce other hin hsame] at hkey
        exact hkey rfl
      exact ⟨other, (hrest other).mpr ⟨hin, hne⟩, rfl, hvalue⟩
    · rintro ⟨other, hother, hsame, hvalue⟩
      exact ⟨other, ((hrest other).mp hother).1, hsame, hvalue⟩

/-- Inserting a record and its entry. -/
theorem Indexes.insert (h : Indexes own second rest index)
    (hseparates : Separates own second table)
    (htable : ∀ other, table other ↔ other = record ∨ rest other)
    (hafter : ∀ k, after k = if second record = k then some (own record) else index k) :
    Indexes own second table after := by
  intro k value
  rw [hafter]
  split
  · rename_i hkey
    constructor
    · intro hvalue
      exact ⟨record, (htable record).mpr (.inl rfl), hkey, Option.some.inj hvalue⟩
    · rintro ⟨other, hother, hsame, rfl⟩
      rw [hseparates record other ((htable record).mpr (.inl rfl)) hother (hkey.trans hsame.symm)]
  · rename_i hkey
    rw [h k value]
    constructor
    · rintro ⟨other, hin, hsame, hvalue⟩
      exact ⟨other, (htable other).mpr (.inr hin), hsame, hvalue⟩
    · rintro ⟨other, hother, hsame, hvalue⟩
      rcases (htable other).mp hother with rfl | hin
      · exact absurd hsame hkey
      · exact ⟨other, hin, hsame, hvalue⟩

end TallerII.Lib.Secondary
