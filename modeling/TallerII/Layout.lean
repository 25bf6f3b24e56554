import TallerII.Searches
import TallerII.Effects
import TallerII.History

/-!
# The layout of a reachable store

The keys of a reachable store are the counter, the keys of the families and those of conversations
(`Laid`); what follows the prefix of an id is an id (`Numbered`), and a name key is made of the
names and the mail of a user (`Named`). `key_lt_chars` places a key among the prefixes, so that
the scans over the records, the names and the ids visit one family each.
-/

namespace TallerII.PersonManager

open Manager MessagesManager

variable {db next : DB} {other : Text}

/-! ## The order of the families -/

/-- A key stands before a prefix exactly when its own prefix does. -/
theorem key_lt_chars {family bound : Prefix} {rest : Text} :
    key family rest < bound.chars ↔ family.chars < bound.chars := by
  have happ : ∀ {first second : Prefix}, first ≠ second → first.chars < second.chars →
      ∀ left right, first.chars ++ left < second.chars ++ right := by
    intro first second hne hlt left right
    exact append_lt_append hlt (fun hprefix => hne (Prefix.eq_of_chars_prefix hprefix)) left right
  constructor
  · intro hlt
    have hne : family ≠ bound := by
      rintro rfl
      exact not_append_lt _ _ hlt
    rcases lt_trichotomy family.chars bound.chars with hbefore | hsame | hafter
    · exact hbefore
    · have hprefix : family.chars <+: bound.chars := by rw [hsame]
      exact absurd (Prefix.eq_of_chars_prefix hprefix) hne
    · have hbehind := happ hne.symm hafter [] rest
      rw [List.append_nil] at hbehind
      exact absurd hlt (lt_asymm hbehind)
  · intro hlt
    have hne : family ≠ bound := by
      rintro rfl
      exact lt_irrefl _ hlt
    have hbefore := happ hne hlt rest []
    rwa [List.append_nil] at hbefore

/-- The family of the keys from the first record to the first name. -/
theorem range_userMail {family : Prefix} {rest : Text} :
    Prefix.userMail.chars ≤ key family rest ∧ key family rest < Prefix.userName.chars ↔
      family = .userMail := by
  rw [← not_lt, key_lt_chars, key_lt_chars]
  cases family <;> decide

/-- The family of the keys from the first name to the first password. -/
theorem range_userName {family : Prefix} {rest : Text} :
    Prefix.userName.chars ≤ key family rest ∧ key family rest < Prefix.userPassword.chars ↔
      family = .userName := by
  rw [← not_lt, key_lt_chars, key_lt_chars]
  cases family <;> decide

/-- The family of the keys from the first id on. -/
theorem range_userUuid {family : Prefix} {rest : Text} :
    Prefix.userUuid.chars ≤ key family rest ↔ family = .userUuid := by
  rw [← not_lt, key_lt_chars]
  cases family <;> decide

/-- What begins like a number stands before everything that is kept about users. -/
theorem head_lt_chars {bound : Prefix} (hbound : bound.initial = 'u') {c : Char}
    (hc : c.isDigit ∨ c = '-') (rest : Text) : c :: rest < bound.chars := by
  have hlow : c < 'u' := by
    rcases hc with hdigit | rfl
    · simp only [Char.isDigit, Bool.and_eq_true, decide_eq_true_eq] at hdigit
      exact lt_of_le_of_lt hdigit.2 (by decide)
    · decide
  have hhead := head_key bound []
  rw [key, List.append_nil, hbound] at hhead
  obtain ⟨others, hchars⟩ := List.head?_eq_some_iff.mp hhead
  rw [hchars]
  exact List.cons_lt_cons_iff.mpr (.inl hlow)

/-- So do conversations. -/
theorem getKey_lt_chars {bound : Prefix} (hbound : bound.initial = 'u')
    (fromUserId toUserId : Long) : getKey fromUserId toUserId < bound.chars := by
  obtain ⟨c, rest, hkey, hc⟩ := head_getKey fromUserId toUserId
  rw [hkey]
  exact head_lt_chars hbound hc rest

/-- The key of the counter is in front of the prefixes of users. -/
theorem lastID_lt_chars {bound : Prefix} (hbound : bound.initial = 'u') :
    lastID < bound.chars := by
  revert hbound
  cases bound <;> decide

/-! ## The keys of a reachable store -/

/-- Every key is the counter, or belongs to a family or to a conversation. -/
def Laid (db : DB) : Prop :=
  ∀ other entry, db.existsKey other = some entry → other = lastID ∨
    (∃ family rest, other = key family rest) ∨ ∃ user contact, other = getKey user contact

/-- What follows the prefix of an id is an id. -/
def Numbered (db : DB) : Prop :=
  ∀ rest entry, db.existsKey (key .userUuid rest) = some entry → ∃ id : Long, rest = toString id

/-- A name key is the one of some user. -/
def Named (db : DB) : Prop :=
  ∀ rest entry, db.existsKey (key .userName rest) = some entry → ∃ user,
    key .userName rest = userNameKey user

/-- Every call keeps the layout of the store. -/
theorem Laid.exec (h : Laid db) (call : Call) : Laid (exec db call).2 := by
  intro other entry hentry
  by_contra hnone
  simp only [not_or, not_exists] at hnone
  obtain ⟨hcounter, hkeys, hconversations⟩ := hnone
  have hapart : Apart other := {
    skill := hkeys _
    position := hkeys _
    name := fun _ => hkeys _ _
    mail := hkeys _
    uuid := hkeys _
    password := hkeys _
    counter := hcounter }
  have hsame := @existsKey_exec_elsewhere db other call hapart (fun _ _ => hkeys _) (hkeys _)
    (hkeys _) fun user contact heq => hconversations user contact heq.symm
  rw [hsame] at hentry
  rcases h other entry hentry with hlast | ⟨family, rest, heq⟩ | ⟨user, contact, heq⟩
  · exact hcounter hlast
  · exact hkeys family rest heq
  · exact hconversations user contact heq

/-- Every call keeps the names. -/
theorem Named.exec (h : Named db) (call : Call) : Named (exec db call).2 := by
  intro rest entry hentry
  by_contra hnone
  simp only [not_exists] at hnone
  have hapart : Apart (key .userName rest) := {
    skill := by simp
    position := by simp
    name := hnone
    mail := by simp
    uuid := by simp
    password := by simp
    counter := by simp }
  have hsame :=
    @existsKey_exec_elsewhere db _ call hapart (fun _ _ => by simp) (by simp) (by simp)
    (by simp)
  rw [hsame] at hentry
  obtain ⟨user, hname⟩ := h rest entry hentry
  exact hnone user hname

/-- Every call keeps the ids. -/
theorem Numbered.exec (h : Numbered db) (hconsistent : Consistent db) (call : Call) :
    Numbered (exec db call).2 := by
  intro rest entry hentry
  have heffect := effect_exec hconsistent call
  generalize (PersonManager.exec db call).1 = result, (PersonManager.exec db call).2 = next
    at heffect hentry
  cases heffect with
  | kept _ hsame _ =>
      rw [hsame .userUuid rest (.inr (.inl rfl))] at hentry
      exact h rest entry hentry
  | registered _ _ _ _ hid _ _ =>
      rw [hid] at hentry
      split at hentry
      · rename_i heq
        exact ⟨_, heq.symm⟩
      · exact h rest entry hentry
  | updated _ _ _ hid _ _ =>
      rw [hid] at hentry
      exact h rest entry hentry
  | recommended _ _ _ hsame _ =>
      rw [hsame .userUuid rest (.inl rfl)] at hentry
      exact h rest entry hentry
  | deleted _ _ hid _ _ =>
      rw [hid] at hentry
      split at hentry
      · cases hentry
      · exact h rest entry hentry
  | halfDeleted _ _ hid _ _ =>
      rw [hid] at hentry
      split at hentry
      · cases hentry
      · exact h rest entry hentry

/-- The keys of every reachable store are laid out. -/
theorem Reachable.laid (h : Reachable db) : Laid db := by
  obtain ⟨calls, hrun⟩ := h
  refine hrun.invariant ?_ ?_
  · intro other entry hentry
    simp at hentry
  · rintro before call after hbefore rfl
    exact hbefore.exec call

/-- Every reachable store has names that are laid out so. -/
theorem Reachable.named (h : Reachable db) : Named db := by
  obtain ⟨calls, hrun⟩ := h
  refine hrun.invariant ?_ ?_
  · intro rest entry hentry
    simp at hentry
  · rintro before call after hbefore rfl
    exact hbefore.exec call

/-- Every reachable store has ids that are laid out so. -/
theorem Reachable.numbered (h : Reachable db) : Numbered db := by
  obtain ⟨calls, hrun⟩ := h
  have hboth : Consistent db ∧ Numbered db := by
    refine @Lib.Run.invariant _ _ Calls ∅ db _ (fun db => Consistent db ∧ Numbered db) ?_ ?_ hrun
    · refine ⟨Consistent.empty, fun rest entry hentry => ?_⟩
      simp at hentry
    · rintro before call after ⟨hconsistent, hbefore⟩ rfl
      exact ⟨hconsistent.exec call, hbefore.exec hconsistent call⟩
  exact hboth.2

/-! ## The scans -/

/-- A key of a laid out store that is not below a prefix of users belongs to a family. -/
theorem Laid.family_of_le (h : Laid db) {bound : Prefix} (hbound : bound.initial = 'u')
    {entry : Entry} (hentry : db.existsKey other = some entry) (hle : bound.chars ≤ other) :
    ∃ family rest, other = key family rest := by
  rcases h other entry hentry with rfl | hfamily | ⟨user, contact, rfl⟩
  · exact absurd (lastID_lt_chars hbound) (not_lt.mpr hle)
  · exact hfamily
  · exact absurd (getKey_lt_chars hbound user contact) (not_lt.mpr hle)

/-- A scan from one prefix to the next one visits the family of the first. -/
theorem Laid.mem_scan (h : Laid db) {start stop : Prefix} (hbound : start.initial = 'u')
    (hrange : ∀ {family : Prefix} {rest : Text},
      start.chars ≤ key family rest ∧ key family rest < stop.chars ↔ family = start)
    {entry : Text × Entry} :
    entry ∈ db.scan start.chars stop.chars ↔
      ∃ rest, entry.1 = key start rest ∧ db.existsKey (key start rest) = some entry.2 ∧
        entry.2.isEmpty = false := by
  rw [DB.mem_scan]
  constructor
  · rintro ⟨hentry, hstart, hstop, hvalue⟩
    obtain ⟨family, rest, hkey⟩ := h.family_of_le hbound hentry hstart
    rw [hkey] at hentry hstart hstop
    obtain rfl := hrange.mp ⟨hstart, hstop⟩
    exact ⟨rest, hkey, hentry, hvalue⟩
  · rintro ⟨rest, hkey, hentry, hvalue⟩
    obtain ⟨hstart, hstop⟩ := (@hrange start rest).mpr rfl
    rw [hkey]
    exact ⟨hentry, hstart, hstop, hvalue⟩

end TallerII.PersonManager
