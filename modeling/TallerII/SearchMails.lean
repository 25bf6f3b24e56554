import TallerII.SearchRoles

/-!
# Searching by mail

`searchByMail` splices the search text into an expression, and matches it with the key of every
record. What it finds is what the expression matches in the keys (`searchByMail_spec`); that is
the literal search in the mails only while the expression is well formed, and while no key matches
for its prefix or for a character that is an operator (`searchesMails_iff`).
-/

namespace TallerII.PersonManager

open Manager Lib.Criteria

variable {lib : TextLibrary} {db : DB} {search : Text}

/-- The search finds the users whose mail contains the text in small letters, each of them once.
-/
def SearchesMails (lib : TextLibrary) (db : DB) (search : Text) : Prop :=
  ∃ found, searchByMail lib db [search] = .ok found ∧ found.Nodup ∧
    ∀ user, user ∈ found ↔ IsRecord db user ∧ lower search <:+: user.email

/-- The search returns the records whose key matches, each of them once. -/
theorem searchByMail_spec (h : Consistent db) (hlaid : Laid db) {e : Text → Bool}
    (hregex : lib.regex (lower search) = .ok e) (others : List Text) :
    ∃ found, searchByMail lib db (search :: others) = .ok found ∧ found.Nodup ∧
      ∀ user, user ∈ found ↔ IsRecord db user ∧ e (key .userMail user.email) = true := by
  have hread : ∀ entry ∈ (db.scan Prefix.userMail.chars Prefix.userName.chars).filter
      (fun entry => e entry.1), ∃ user, IsRecord db user ∧
        entry = (key .userMail user.email, .json user.serializeMe) := by
    intro entry hentry
    exact (mem_scan_record h hlaid).mp (List.mem_filter.mp hentry).1
  have hall : ∀ entry ∈ (db.scan Prefix.userMail.chars Prefix.userName.chars).filter
      (fun entry => e entry.1), ∃ user, Person.ofJson entry.2.parse = .ok user := by
    intro entry hentry
    obtain ⟨user, huser, rfl⟩ := hread entry hentry
    exact ⟨user, huser.ofJson h⟩
  obtain ⟨found, hfound⟩ := exists_mapM_eq_ok hall
  have hsearch : searchByMail lib db (search :: others) = .ok found := by
    rw [searchByMail_eq, hregex, ok_bind, hfound]
  refine ⟨found, hsearch, ?_, ?_⟩
  · -- every user is read from its own entry, and no entry is visited twice
    have hback : found.map (fun user => (key .userMail user.email, Entry.json user.serializeMe))
        = (db.scan Prefix.userMail.chars Prefix.userName.chars).filter fun entry =>
          e entry.1 := by
      refine map_of_mapM_eq_ok ?_ hfound
      intro entry hentry value hvalue
      obtain ⟨stored, hstored, rfl⟩ := hread entry hentry
      rw [hstored.ofJson h] at hvalue
      cases hvalue
      rfl
    have hkeys := db.scan_keys_nodup Prefix.userMail.chars Prefix.userName.chars
    have hentries := (List.Nodup.of_map _ hkeys).filter fun entry => e entry.1
    rw [← hback] at hentries
    exact List.Nodup.of_map _ hentries
  · intro user
    have hmem := @mem_searchByMail lib db h hlaid search others user
    rwa [hsearch, returned_ok, lib.regexMatch_of_regex hregex] at hmem

/-- An expression that is refused is thrown before any record is visited. -/
theorem searchByMail_refused {error : Exn} (hregex : lib.regex (lower search) = .error error)
    (others : List Text) : searchByMail lib db (search :: others) = .error error := by
  rw [searchByMail_eq, hregex]
  rfl

/-- What the mail has, the key has. -/
theorem infix_key_of_infix {mail : Text} (h : search <:+: mail) :
    search <:+: key .userMail mail :=
  h.trans (List.suffix_append _ _).isInfix

/-- The search is the literal one exactly when its expression is well formed and matches the keys
of the users whose mail has the text, and no others. -/
theorem searchesMails_iff_regex (h : Reachable db) :
    SearchesMails lib db search ↔ ∃ e, lib.regex (lower search) = .ok e ∧
      ∀ user, IsRecord db user →
        (e (key .userMail user.email) = true ↔ lower search <:+: user.email) := by
  cases hregex : lib.regex (lower search) with
  | error error => simp [SearchesMails, searchByMail_refused hregex]
  | ok e =>
      obtain ⟨found, hfound, hnodup, hmem⟩ := searchByMail_spec h.consistent h.laid hregex []
      simp only [SearchesMails, hfound, Except.ok.injEq, exists_eq_left']
      constructor
      · rintro ⟨-, hmails⟩ user hrecord
        have hsame := (hmem user).symm.trans (hmails user)
        simpa only [hrecord, true_and] using hsame
      · intro hmatch
        refine ⟨hnodup, fun user => ?_⟩
        rw [hmem]
        exact and_congr_right (hmatch user)

/-- For a text that is taken literally the expression is well formed, and finds too much only in
the keys of users whose mail does not have the text. -/
theorem searchesMails_iff_literal (h : Reachable db) (hlib : lib.Containing)
    (hliteral : IsLiteral search) :
    SearchesMails lib db search ↔ ∀ user, IsRecord db user →
      lower search <:+: key .userMail user.email → lower search <:+: user.email := by
  obtain ⟨e, hregex, hmatch⟩ := hlib hliteral.lower
  simp only [searchesMails_iff_regex h, hregex, Except.ok.injEq, exists_eq_left', hmatch]
  constructor
  · intro hall user hrecord
    exact (hall user hrecord).mp
  · intro hall user hrecord
    exact ⟨hall user hrecord, infix_key_of_infix⟩

/-- In every reachable store, the search by mail is literal substring search exactly when the
expression made of the text is well formed and matches, among the keys of the users, those of
mails that have the text; for a text without metacharacters, exactly when no user has it in the
key without having it in the mail. -/
theorem searchesMails_iff (h : Reachable db) (lib : TextLibrary) (search : Text) :
    (SearchesMails lib db search ↔ ∃ e, lib.regex (lower search) = .ok e ∧
      ∀ user, IsRecord db user →
        (e (key .userMail user.email) = true ↔ lower search <:+: user.email)) ∧
      (lib.Containing → IsLiteral search →
        (SearchesMails lib db search ↔ ∀ user, IsRecord db user →
        lower search <:+: key .userMail user.email → lower search <:+: user.email)) :=
  ⟨searchesMails_iff_regex h, searchesMails_iff_literal h⟩

/-- Looking for `mail` finds a user whose mail does not have it: the prefix of the keys does. -/
theorem mail_of_prefix :
    Reachable skilledUser ∧ IsLiteral "mail".toList ∧
      searchByMail .containment skilledUser ["mail".toList] = .ok [skilled] ∧
      ¬ "mail".toList <:+: skilled.email ∧
      ¬ SearchesMails .containment skilledUser "mail".toList := by
  have hliteral : IsLiteral "mail".toList := by
    have hnone : "mail".toList.all (fun c => c ∉ metacharacters) = true := by decide
    intro c hc
    exact of_decide_eq_true (List.all_eq_true.mp hnone c hc)
  have hfound : searchByMail .containment skilledUser ["mail".toList] = .ok [skilled] := by decide
  have hnone : ¬ "mail".toList <:+: skilled.email := by decide
  refine ⟨reachable_execAll _, hliteral, hfound, hnone, ?_⟩
  rintro ⟨found, hother, -, hmem⟩
  rw [hfound] at hother
  cases hother
  exact hnone ((hmem skilled).mp List.mem_cons_self).2

/-- Nobody else has a record. -/
theorem eq_skilled_of_isRecord {user : Person} (h : IsRecord skilledUser user) :
    user = skilled := by
  have hreachable : Reachable skilledUser := reachable_execAll _
  have husers : getAllUsers skilledUser = .ok [skilled] := by decide
  have hfound := (mem_getAllUsers hreachable.consistent hreachable.laid).mpr h
  rw [husers, returned_ok] at hfound
  exact List.mem_singleton.mp hfound

/-- Looking for the mail finds the user. -/
theorem searchesMails_own : SearchesMails .containment skilledUser ['A'] := by
  have hliteral : IsLiteral ['A'] := by
    intro c hc
    rw [List.mem_singleton.mp hc]
    decide
  refine ((searchesMails_iff (reachable_execAll [.savePerson skilled.serializeMe (-1)])
    .containment ['A']).2 containing_containment hliteral).mpr ?_
  intro user hrecord hkey
  obtain rfl := eq_skilled_of_isRecord hrecord
  decide

end TallerII.PersonManager
