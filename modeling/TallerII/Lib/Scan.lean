import Mathlib

/-!
# Range scans over sorted entries

An iterator over entries in the order of their keys: seek the first key that is not below the
start, then go on while the key is below the stop. On entries that are sorted by key this visits
the entries of the half-open range, each once and in order (`scan_eq_filter`).
-/

namespace TallerII.Lib.Scan

universe u v

variable {κ : Type u} {β : Type v} [LinearOrder κ]

/-- The entries that a scan from `start` up to `stop` visits. -/
def scan (entries : List (κ × β)) (start stop : κ) : List (κ × β) :=
  (entries.dropWhile (·.1 < start)).takeWhile (·.1 < stop)

/-- On sorted entries a scan visits the range and nothing else. -/
theorem scan_eq_filter {entries : List (κ × β)}
    (hsorted : entries.Pairwise fun left right => left.1 < right.1) (start stop : κ) :
    scan entries start stop = entries.filter fun entry => start ≤ entry.1 ∧ entry.1 < stop := by
  -- from the first key in the range on, taking while the key is below the stop is filtering
  have htake : ∀ {entries : List (κ × β)},
      (entries.Pairwise fun left right => left.1 < right.1) →
      (∀ entry ∈ entries, start ≤ entry.1) →
      entries.takeWhile (·.1 < stop)
        = entries.filter fun entry => start ≤ entry.1 ∧ entry.1 < stop := by
    intro entries hsorted hlow
    induction entries with
    | nil => rfl
    | cons entry entries ih =>
        obtain ⟨hfirst, hrest⟩ := List.pairwise_cons.mp hsorted
        have hentry := hlow entry List.mem_cons_self
        by_cases hstop : entry.1 < stop
        · simp [hstop, hentry, ih hrest fun e he => hlow e (List.mem_cons_of_mem _ he)]
        · -- every later key is larger, so none of them is below the stop either
          have hnone : ∀ e ∈ entries, ¬ e.1 < stop :=
            fun e he hlt => hstop ((hfirst e he).trans hlt)
          simpa [hstop] using fun key value he _ => not_lt.mp (hnone (key, value) he)
  induction entries with
  | nil => rfl
  | cons entry entries ih =>
      obtain ⟨hfirst, hrest⟩ := List.pairwise_cons.mp hsorted
      by_cases hstart : entry.1 < start
      · have hout : ¬ start ≤ entry.1 := not_le.mpr hstart
        have hskip := ih hrest
        rw [scan] at hskip ⊢
        simpa [hstart, hout] using hskip
      · have hlow : ∀ e ∈ entry :: entries, start ≤ e.1 := by
          intro e he
          rcases List.mem_cons.mp he with rfl | he
          · exact not_lt.mp hstart
          · exact (not_lt.mp hstart).trans (hfirst e he).le
        rw [scan, List.dropWhile_cons_of_neg (by simpa using hstart)]
        exact htake hsorted hlow

/-- On sorted entries, seeking a start leaves exactly the entries that are not below it. -/
theorem dropWhile_eq_filter {entries : List (κ × β)}
    (hsorted : entries.Pairwise fun left right => left.1 < right.1) {start : κ}
    {below : κ × β → Bool} (hbelow : ∀ entry, below entry = true ↔ entry.1 < start) :
    entries.dropWhile below = entries.filter fun entry => ! below entry := by
  induction entries with
  | nil => rfl
  | cons entry entries ih =>
      obtain ⟨hfirst, hrest⟩ := List.pairwise_cons.mp hsorted
      cases hentry : below entry with
      | true => simpa [hentry] using ih hrest
      | false =>
          have hlow : start ≤ entry.1 := by
            rw [← not_lt, ← hbelow, hentry]
            exact Bool.false_ne_true
          have hkept : ∀ e ∈ entry :: entries, (! below e) = true := by
            intro e he
            rw [Bool.not_eq_true', ← Bool.not_eq_true, hbelow, not_lt]
            rcases List.mem_cons.mp he with rfl | he
            · exact hlow
            · exact hlow.trans (hfirst e he).le
          rw [List.dropWhile_cons_of_neg (by simp [hentry]), List.filter_eq_self.mpr hkept]

end TallerII.Lib.Scan
