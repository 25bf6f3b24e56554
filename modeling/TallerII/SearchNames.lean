import TallerII.Lib.Run
import TallerII.Lib.Secondary
import TallerII.SearchRoles

/-!
# Searching by name

The names of the users are an index beside the records: under the names and the mail of a user it
keeps the mail. `searchByName` reads the names back from the keys, up to the next underscore and
with blanks for the dashes, and matches them line by line, so it searches in the names exactly
when they have none of these and are on one line (`readable_iff`). While every profile that is
saved has such names and a mail, the calls keep the index complete and the search finds the users
with the text in their names (`searchByName_exact`).
-/

namespace TallerII.PersonManager

open Manager Lib.Delimited Lib.Criteria Lib.Secondary

variable {lib : TextLibrary} {db next : DB} {user newUser oldUser : Person} {search : Text}

/-! ## Names in keys -/

/-- The first and the last name with a blank between them. -/
def shownName (user : Person) : Text :=
  user.firstName ++ [' '] ++ user.lastName

/-- What follows the prefix of the name key. -/
def nameRest (user : Person) : Text :=
  user.getFullName ++ ['_'] ++ user.email

/-- No delimiter of the key is in the names. -/
structure Undelimited (user : Person) : Prop where
  underscore : '_' ∉ shownName user
  dash : '-' ∉ shownName user

/-- The names that are searched in as they are: there is no underscore, no dash and no end of a
line in them, and the blank before a last name that is missing is never looked for. -/
structure Readable (user : Person) : Prop extends Undelimited user where
  line : ∀ c ∈ shownName user, c ∉ lineTerminators
  last : user.lastName = [] → ∀ search, IsLiteral search →
    search <:+: user.firstName ++ [' '] → search <:+: user.firstName

/-- No underscore comes before the one that ends the names. -/
theorem Undelimited.fullName (h : Undelimited user) : '_' ∉ user.getFullName := by
  have hnone := h.underscore
  simp only [shownName, List.mem_append, List.mem_singleton, not_or] at hnone
  simp [Person.getFullName, hnone]

/-- The key is cut at its first two underscores. -/
theorem getlines_userNameKey (user : Person) :
    getlines '_' (userNameKey user) = "user:name".toList :: getlines '_' (nameRest user) := by
  have hkey : userNameKey user = "user:name".toList ++ '_' :: nameRest user := rfl
  rw [hkey]
  exact getlines_append_delim (by decide : '_' ∉ "user:name".toList) _

/-- The names end at the first underscore of the rest. -/
theorem Undelimited.getlines_nameRest (h : Undelimited user) :
    getlines '_' (nameRest user) = user.getFullName :: getlines '_' user.email := by
  have hrest : nameRest user = user.getFullName ++ '_' :: user.email := by simp [nameRest]
  rw [hrest]
  exact getlines_append_delim h.fullName _

/-- What the search reads from the key of a user without delimiters in the names: without a last
name there is nothing behind the dash. -/
theorem Undelimited.getCleanName (h : Undelimited user) :
    getCleanNameFromKey (userNameKey user)
      = .ok (if user.lastName = [] then user.firstName else shownName user) := by
  have hdash := h.dash
  simp only [shownName, List.mem_append, List.mem_singleton, not_or] at hdash
  have hnames : getlines '-' user.getFullName = user.firstName :: getlines '-' user.lastName := by
    have hsplit : user.getFullName = user.firstName ++ '-' :: user.lastName := by
      simp [Person.getFullName]
    rw [hsplit]
    exact getlines_append_delim hdash.1.1 _
  have hread : getCleanNameFromKey (userNameKey user)
      = .ok ([' '].intercalate (user.firstName :: getlines '-' user.lastName)) := by
    rw [getCleanNameFromKey, getlines_userNameKey, h.getlines_nameRest]
    show Except.ok ([' '].intercalate (getlines '-' user.getFullName)) = _
    rw [hnames]
  rw [hread]
  split
  · rename_i hlast
    simp [hlast]
  · rename_i hlast
    rw [getlines_single ⟨hlast, hdash.2⟩]
    simp [shownName, List.intercalate, List.intersperse]

/-- A literal text matches the names as they are read exactly when it is in the names. -/
theorem Readable.matches_iff (h : Readable user) (hliteral : IsLiteral search) :
    MatchesLine search (if user.lastName = [] then user.firstName else shownName user) ↔
      search <:+: shownName user := by
  split
  · rename_i hlast
    have hshown : shownName user = user.firstName ++ [' '] := by simp [shownName, hlast]
    have hfirst : ∀ c ∈ user.firstName, c ∉ lineTerminators := by
      intro c hc
      refine h.line c ?_
      rw [hshown]
      exact List.mem_append_left _ hc
    rw [matchesLine_iff_isInfix hfirst, hshown]
    constructor
    · intro hfirst
      exact hfirst.trans (List.prefix_append _ _).isInfix
    · exact h.last hlast search hliteral
  · exact matchesLine_iff_isInfix h.line

/-- A name that is read from a key has no underscore and no dash. -/
theorem not_mem_cleanName {nameKey fullName : Text}
    (h : getCleanNameFromKey nameKey = .ok fullName) : '_' ∉ fullName ∧ '-' ∉ fullName := by
  simp only [getCleanNameFromKey, bind_eq_ok] at h
  obtain ⟨piece, hitem, hname⟩ := h
  obtain rfl : [' '].intercalate (getlines '-' piece) = fullName := Except.ok.inj hname
  have hpiece : piece ∈ getlines '_' nameKey := by
    rw [item] at hitem
    split at hitem
    · rename_i hvalue
      cases hitem
      exact List.mem_of_getElem? hvalue
    · cases hitem
  constructor
  · intro hmem
    rcases mem_encode hmem with hblank | ⟨other, hother, hin⟩
    · exact absurd hblank (by decide)
    · exact delim_not_mem hpiece (mem_of_mem_getlines hother hin)
  · intro hmem
    rcases mem_encode hmem with hblank | ⟨other, hother, hin⟩
    · exact absurd hblank (by decide)
    · exact delim_not_mem hother hin

/-- Part of a text in small letters is in small letters. -/
theorem lower_of_infix {text : Text} (hlower : lower text = text) (h : search <:+: text) :
    lower search = search := by
  obtain ⟨before, after, rfl⟩ := h
  simp only [lower, List.map_append] at hlower ⊢
  have hboth := List.append_inj hlower (by simp)
  exact (List.append_inj hboth.1 (by simp)).2

/-- What matches a line is in it. -/
theorem MatchesLine.isInfix {subject : Text} (h : MatchesLine search subject) :
    search <:+: subject := by
  obtain ⟨before, after, rfl, -⟩ := h
  exact ⟨before, after, rfl⟩

/-- A text with a blank that is matched has no end of a line. -/
theorem MatchesLine.not_mem_of_blank {subject : Text} (h : MatchesLine [' '] subject) {c : Char}
    (hc : c ∈ lineTerminators) : c ∉ subject := by
  obtain ⟨before, after, rfl, hline⟩ := h
  intro hmem
  rcases List.mem_append.mp hmem with hmem | hafter
  · rcases List.mem_append.mp hmem with hbefore | hblank
    · exact hline c (List.mem_append_left _ hbefore) hc
    · rw [List.mem_singleton.mp hblank] at hc
      exact absurd hc (by decide)
  · exact hline c (List.mem_append_right _ hafter) hc

/-- The names that are searched in are readable, and no others: each literal text matches what is
read from the key exactly when it is in the names. -/
theorem readable_iff (hnormalized : user.Normalized) :
    Readable user ↔ ∀ fullName, getCleanNameFromKey (userNameKey user) = .ok fullName →
      ∀ search, search ≠ [] → IsLiteral search →
        (MatchesLine (lower search) fullName ↔ lower search <:+: shownName user) := by
  constructor
  · intro h fullName hread search hne hliteral
    obtain rfl := Except.ok.inj (h.getCleanName.symm.trans hread)
    exact h.matches_iff hliteral.lower
  · intro h
    obtain ⟨fullName, hread⟩ := exists_cleanName user
    obtain ⟨hunderscore, hdash⟩ := not_mem_cleanName hread
    -- a single character of the names is a search that has to match
    have hsingle : ∀ c, c.toLower = c → c ∉ metacharacters → c ∈ shownName user →
        MatchesLine [c] fullName := by
      intro c hlower hmeta hshown
      have hliteral : IsLiteral [c] := by
        intro other hother
        rwa [List.mem_singleton.mp hother]
      have hsame : lower [c] = [c] := congrArg (fun c => [c]) hlower
      have hfound := h fullName hread [c] (by simp) hliteral
      rw [hsame] at hfound
      exact hfound.mpr ((List.singleton_infix_iff _ _).mpr hshown)
    have hnone : ∀ c, c.toLower = c → c ∉ metacharacters → c ∉ fullName → c ∉ shownName user :=
      fun c hlower hmeta hmissing hshown =>
        hmissing ((List.singleton_infix_iff _ _).mp (hsingle c hlower hmeta hshown).isInfix)
    have hplain : Undelimited user :=
      ⟨hnone '_' (by decide) (by decide) hunderscore, hnone '-' (by decide) (by decide) hdash⟩
    -- the blank between the names is matched only on one line
    have hblank : MatchesLine [' '] fullName :=
      hsingle ' ' (by decide) (by decide) (by simp [shownName])
    have hline : ∀ c ∈ shownName user, c ∉ lineTerminators := by
      intro c hshown hc
      have hlower : c.toLower = c ∧ c ∉ metacharacters := by
        simp only [lineTerminators, List.mem_cons, List.not_mem_nil, or_false] at hc
        rcases hc with rfl | rfl <;> decide
      exact hnone c hlower.1 hlower.2 (hblank.not_mem_of_blank hc) hshown
    refine ⟨hplain, hline, ?_⟩
    intro hlast search hliteral hshown
    by_cases hne : search = []
    · rw [hne]
      exact List.nil_infix
    · -- without a last name the blank behind the first one is not read back
      have hclean := hplain.getCleanName
      rw [if_pos hlast] at hclean
      have hsame : lower search = search := by
        refine lower_of_infix ?_ hshown
        rw [lower, List.map_append]
        exact congrArg (· ++ [' ']) hnormalized.firstName
      have hfound := h _ hclean search hne hliteral
      rw [hsame] at hfound
      refine (hfound.mpr ?_).isInfix
      simpa [shownName, hlast] using hshown

/-! ## The index of names -/

/-- The keys of the names lead to the mails of the users, and every user has a mail and names that
are readable. -/
structure NamesIndexed (db : DB) : Prop where
  consistent : Consistent db
  laid : Laid db
  searchable : ∀ user, IsRecord db user → user.email ≠ [] ∧ Readable user
  indexed : Indexes (fun user => Entry.text user.email) nameRest (IsRecord db)
    fun rest => db.existsKey (key .userName rest)

/-- The search by name throws nothing for a literal text, and finds the users with the text in
their names, each of them once. -/
def NameSearchExact (lib : TextLibrary) (db : DB) : Prop :=
  ∀ search, search ≠ [] → IsLiteral search →
    ∃ found, searchByName lib db [search] = .ok found ∧ found.Nodup ∧
      ∀ user, user ∈ found ↔ IsRecord db user ∧ lower search <:+: shownName user

/-- The entries that the scan over the names visits. -/
theorem NamesIndexed.mem_scan (h : NamesIndexed db) {entry : Text × Entry} :
    entry ∈ db.scan Prefix.userName.chars Prefix.userPassword.chars ↔
      ∃ user, IsRecord db user ∧ entry = (userNameKey user, .text user.email) := by
  rw [h.laid.mem_scan rfl range_userName]
  constructor
  · rintro ⟨rest, hkey, hvalue, -⟩
    obtain ⟨user, hrecord, rfl, hentry⟩ := (h.indexed rest entry.2).mp hvalue
    exact ⟨user, hrecord, Prod.ext hkey hentry.symm⟩
  · rintro ⟨user, hrecord, rfl⟩
    refine ⟨nameRest user, rfl, (h.indexed _ _).mpr ⟨user, hrecord, rfl, rfl⟩, ?_⟩
    simpa [Entry.isEmpty] using (h.searchable user hrecord).1

/-- What the loop does with the entry of a user. -/
theorem NamesIndexed.readName_eq (h : NamesIndexed db) {e : Text → Bool}
    (hmatch : ∀ subject, e subject = true ↔ MatchesLine (lower search) subject)
    (hliteral : IsLiteral search) (hrecord : IsRecord db user) :
    readName e db (userNameKey user, .text user.email)
      = .ok (if lower search <:+: shownName user then some user else none) := by
  have hreadable := (h.searchable user hrecord).2
  have hfound := (hmatch _).trans (hreadable.matches_iff hliteral.lower)
  rw [PersonManager.readName_eq hreadable.getCleanName]
  by_cases hin : lower search <:+: shownName user
  · rw [if_pos (hfound.mpr hin), if_pos hin]
    show (getUserByMail db user.email).map some = _
    rw [hrecord]
    rfl
  · rw [if_neg (mt hfound.mp hin), if_neg hin]

/-- Over a complete index the search is exact. -/
theorem NamesIndexed.searchExact (h : NamesIndexed db) (hlib : lib.MatchingLines) :
    NameSearchExact lib db := by
  intro search hne hliteral
  obtain ⟨e, hregex, hmatch⟩ := hlib hliteral.lower
  have hread : ∀ entry ∈ db.scan Prefix.userName.chars Prefix.userPassword.chars, ∃ user,
      IsRecord db user ∧ entry = (userNameKey user, .text user.email) ∧
        readName e db entry
          = .ok (if lower search <:+: shownName user then some user else none) := by
    intro entry hentry
    obtain ⟨user, hrecord, rfl⟩ := h.mem_scan.mp hentry
    exact ⟨user, hrecord, rfl, h.readName_eq hmatch hliteral hrecord⟩
  have hall : ∀ entry ∈ db.scan Prefix.userName.chars Prefix.userPassword.chars, ∃ value,
      readName e db entry = .ok value := by
    intro entry hentry
    obtain ⟨user, -, -, hvalue⟩ := hread entry hentry
    exact ⟨_, hvalue⟩
  obtain ⟨results, hresults⟩ := exists_mapM_eq_ok hall
  have hsearch : searchByName lib db [search] = .ok (results.filterMap id) := by
    rw [searchByName_eq, hregex, ok_bind, hresults, ok_bind]
  refine ⟨_, hsearch, ?_, ?_⟩
  · -- a user who is found has the key of the entry, and the scan visits a key once
    have hlabel : ∀ entry ∈ db.scan Prefix.userName.chars Prefix.userPassword.chars, ∀ user,
        readName e db entry = .ok (some user) → (userNameKey user, Entry.text user.email)
          = entry := by
      intro entry hentry user hvalue
      obtain ⟨stored, -, rfl, hstored⟩ := hread entry hentry
      rw [hstored] at hvalue
      split at hvalue <;> cases hvalue
      rfl
    have hkeys := db.scan_keys_nodup Prefix.userName.chars Prefix.userPassword.chars
    exact (((List.Nodup.of_map _ hkeys).sublist (sublist_of_mapM hlabel hresults))).of_map _
  · intro user
    have hmem : user ∈ results.filterMap id ↔ some user ∈ results := by simp
    rw [hmem, mem_of_mapM_eq_ok hresults]
    constructor
    · rintro ⟨entry, hentry, hvalue⟩
      obtain ⟨stored, hrecord, rfl, hstored⟩ := hread entry hentry
      rw [hstored] at hvalue
      split at hvalue
      · rename_i hfound
        cases hvalue
        exact ⟨hrecord, hfound⟩
      · cases hvalue
    · rintro ⟨hrecord, hfound⟩
      refine ⟨_, h.mem_scan.mpr ⟨user, hrecord, rfl⟩, ?_⟩
      rw [h.readName_eq hmatch hliteral hrecord, if_pos hfound]

/-! ## The name keys after a call -/

/-- The entries of names after a registration. -/
theorem existsKey_name_insertPerson (db : DB) (user : Person) (rest : Text) :
    (insertPerson db user).existsKey (key .userName rest)
      = if nameRest user = rest then some (.text user.email)
        else db.existsKey (key .userName rest) := by
  rw [existsKey_insertPerson (by simp) (by simp), existsKey_saveAccount]
  simp [userNameKey, nameRest]

/-- The entries of names after an update. -/
theorem existsKey_name_updateName (db : DB) (newUser oldUser : Person) (rest : Text) :
    (updateName db newUser oldUser).existsKey (key .userName rest)
      = if oldUser.getFullName = newUser.getFullName then db.existsKey (key .userName rest)
        else if nameRest newUser = rest then some (.text newUser.email)
        else if nameRest oldUser = rest then none else db.existsKey (key .userName rest) := by
  unfold updateName
  by_cases hsame : oldUser.getFullName = newUser.getFullName
  · simp [hsame]
  · simp [hsame, saveUserNameKey, deleteUserNameKey, userNameKey, nameRest]

/-- Behind the name, an update writes no name key. -/
theorem existsKey_name_applyUpdate {id : Long}
    (h : applyUpdate db newUser oldUser = (.ok id, next)) (rest : Text) :
    next.existsKey (key .userName rest)
      = (updateName db newUser oldUser).existsKey (key .userName rest) := by
  obtain ⟨-, skilled, positioned, hskills, hpositions, rfl⟩ := applyUpdate_eq_ok.mp h
  rw [updateSkills_eq] at hskills
  rw [updateWorkHistory_eq] at hpositions
  have hskilled := @existsKey_deleteUserFromSkills
    (addMails .userSkill newUser.email (updateName db newUser oldUser)
      (addedNames newUser oldUser)) newUser.email (removedNames newUser oldUser)
    (key .userName rest) (by simp)
  rw [hskills, existsKey_addMails (by simp)] at hskilled
  have hpositioned := @existsKey_deleteUserFromJobPositions
    (addMails .userJobPosition newUser.email skilled (addedTitles newUser oldUser)) newUser.email
    (removedTitles newUser oldUser) (key .userName rest) (by simp) (by simp)
  rw [hpositions, existsKey_addMails (by simp), hskilled] at hpositioned
  rw [← hpositioned, saveUpdated, saveUser, DB.existsKey_putKey, if_neg (by simp)]
  split
  · rfl
  · rw [updatePassword]
    split <;> simp [saveUserPasswordKey, deleteUserPasswordKey]

/-- A deletion deletes the name key of the user. -/
theorem existsKey_name_applyDelete {id : Long} (h : applyDelete db id user = (.ok (), next))
    (rest : Text) :
    next.existsKey (key .userName rest)
      = if nameRest user = rest then none else db.existsKey (key .userName rest) := by
  obtain ⟨skilled, positioned, hskills, hpositions, rfl⟩ := applyDelete_eq_ok.mp h
  have hskilled := @existsKey_deleteUserFromSkills (deleteAccount db user) user.email
    user.skillNames (key .userName rest) (by simp)
  have hpositioned := @existsKey_deleteUserFromJobPositions skilled user.email
    user.positionTitles (key .userName rest) (by simp) (by simp)
  rw [hskills] at hskilled
  rw [hpositions, hskilled] at hpositioned
  rw [deleteUser, DB.existsKey_deleteKey, if_neg (by simp), hpositioned]
  simp [deleteAccount, deleteUserIdKey, deleteUserNameKey, deleteUserPasswordKey, userNameKey,
    nameRest]

/-! ## The records after a call -/

/-- Saving a profile replaces the record with its mail. -/
theorem isRecord_saved {saved : Person}
    (hview : ∀ mail, getUserByMail next mail
      = if saved.email = mail then .ok saved else getUserByMail db mail) :
    IsRecord next user ↔ user = saved ∨ IsRecord db user ∧ user.email ≠ saved.email := by
  rw [IsRecord, hview]
  split
  · rename_i hmail
    constructor
    · intro hsaved
      exact .inl (Except.ok.inj hsaved).symm
    · rintro (rfl | ⟨-, hne⟩)
      · rfl
      · exact absurd hmail.symm hne
  · rename_i hmail
    constructor
    · intro hrecord
      exact .inr ⟨hrecord, Ne.symm hmail⟩
    · rintro (rfl | ⟨hrecord, -⟩)
      · exact absurd rfl hmail
      · exact hrecord

/-- What is read after an update that returned. -/
theorem getUserByMail_updateUser (h : Consistent db) {juser : Json} {id : Long}
    (hcall : updateUser db juser = (.ok id, next)) (hread : Person.ofJson juser = .ok newUser)
    (hold : getUserById db newUser.id = .ok oldUser) (mail : Text) :
    getUserByMail next mail = if (updated newUser oldUser).email = mail then
      .ok (updated newUser oldUser) else getUserByMail db mail := by
  cases profileStep_updateUser h hcall with
  | updated hother hfound _ _ _ hview =>
      rw [hread] at hother
      cases hother
      rw [hold] at hfound
      cases hfound
      exact hview mail

/-- Deleting a user takes the record with the mail away. -/
theorem isRecord_deleted {gone : Person}
    (hview : ∀ mail, getUserByMail next mail
      = if gone.email = mail then .error (.userNotFoundMail mail) else getUserByMail db mail) :
    IsRecord next user ↔ IsRecord db user ∧ user.email ≠ gone.email := by
  rw [IsRecord, hview]
  split
  · rename_i hmail
    constructor
    · intro hnone
      cases hnone
    · rintro ⟨-, hne⟩
      exact absurd hmail.symm hne
  · rename_i hmail
    constructor
    · intro hrecord
      exact ⟨hrecord, Ne.symm hmail⟩
    · exact And.left

/-- Two records with the same mail are one. -/
theorem IsRecord.eq_of_email {other : Person} (h : IsRecord db user) (hother : IsRecord db other)
    (hmail : other.email = user.email) : other = user := by
  rw [IsRecord, hmail, h] at hother
  exact (Except.ok.inj hother).symm

/-- Readable names and a mail are read back from what follows the prefix. -/
theorem separates_of_readable {table : Person → Prop} (h : ∀ user, table user → Readable user) :
    Separates (fun user => Entry.text user.email) nameRest table := by
  intro user other huser hother hrest
  have hpieces := congrArg (getlines '_') hrest
  rw [(h user huser).getlines_nameRest, (h other hother).getlines_nameRest] at hpieces
  have hnames := (List.cons.inj hpieces).1
  rw [nameRest, nameRest, hnames] at hrest
  exact congrArg Entry.text (List.append_cancel_left hrest)

/-- Without the entry of a user, the index leads to the others. -/
theorem NamesIndexed.without (h : NamesIndexed db) (hrecord : IsRecord db user) :
    Indexes (fun user => Entry.text user.email) nameRest
      (fun other => IsRecord db other ∧ other.email ≠ user.email)
      fun rest => if nameRest user = rest then none else db.existsKey (key .userName rest) := by
  refine h.indexed.remove (separates_of_readable fun other hother =>
    (h.searchable other hother).2)
    hrecord ?_ (fun _ => rfl) ?_
  · intro other
    simp
  · intro other hother hmail
    exact hrecord.eq_of_email hother (by simpa using hmail)

/-- Saving a profile with a mail and readable names, with its name key. -/
theorem NamesIndexed.save (saved : Person) {others : Person → Prop} {index : Text → Option Entry}
    (hconsistent : Consistent next) (hlaid : Laid next)
    (hothers : ∀ other, others other → other.email ≠ [] ∧ Readable other)
    (hsaved : saved.email ≠ [] ∧ Readable saved)
    (hindex : Indexes (fun user => Entry.text user.email) nameRest others index)
    (hrecord : ∀ other, IsRecord next other ↔ other = saved ∨ others other)
    (hname : ∀ rest, next.existsKey (key .userName rest)
      = if nameRest saved = rest then some (.text saved.email) else index rest) :
    NamesIndexed next := by
  have hsearchable : ∀ other, IsRecord next other → other.email ≠ [] ∧ Readable other := by
    intro other hother
    rcases (hrecord other).mp hother with rfl | hin
    · exact hsaved
    · exact hothers other hin
  exact {
    consistent := hconsistent
    laid := hlaid
    searchable := hsearchable
    indexed := hindex.insert
      (separates_of_readable fun other hother => (hsearchable other hother).2) hrecord hname }

/-- A registration indexes the name. -/
theorem NamesIndexed.savePerson (h : NamesIndexed db) {juser : Json} {forceID id : Long}
    (hcall : savePerson db juser forceID = (.ok id, next)) (hconsistent : Consistent next)
    (hlaid : Laid next)
    (hsafe : ∀ user, Person.ofJson juser = .ok user → user.email ≠ [] ∧ Readable user) :
    NamesIndexed next := by
  obtain ⟨user, counted, hread, hfree, hassigned, rfl⟩ := savePerson_eq_ok hcall
  have hcounted : ∀ family rest, counted.existsKey (key family rest)
      = db.existsKey (key family rest) := fun family rest => hassigned.existsKey key_ne_lastID
  have hview := getUserByMail_insertPerson
    (normalized_registered (Person.normalized_of_ofJson hread) id) hcounted
  obtain ⟨hmail, hreadable⟩ := hsafe user hread
  have hregistered : Readable (registered user id) :=
    ⟨⟨hreadable.underscore, hreadable.dash⟩, hreadable.line, hreadable.last⟩
  have hnew : ∀ other, IsRecord db other → other.email ≠ user.email := by
    intro other hother hsame
    have hstored := (h.consistent.getUserByMail_eq_ok.mp hother).1
    rw [hsame, hfree] at hstored
    cases hstored
  refine .save (registered user id) hconsistent hlaid h.searchable ⟨hmail, hregistered⟩
    h.indexed ?_ ?_
  · intro other
    rw [isRecord_saved hview]
    exact or_congr_right (and_iff_left_of_imp (hnew other))
  · intro rest
    rw [existsKey_name_insertPerson, hcounted]

/-- An update indexes the new name. -/
theorem NamesIndexed.updateUser (h : NamesIndexed db) {juser : Json} {id : Long}
    (hcall : updateUser db juser = (.ok id, next)) (hconsistent : Consistent next)
    (hlaid : Laid next) (hsafe : ∀ user, Person.ofJson juser = .ok user → Readable user) :
    NamesIndexed next := by
  obtain ⟨newUser, oldUser, hread, hold, happly⟩ := updateUser_eq_ok hcall
  obtain ⟨-, hrecord, -⟩ := h.consistent.getUserById_eq_ok.mp hold
  have hmail : (updated newUser oldUser).email = oldUser.email := rfl
  have hreadable := hsafe newUser hread
  have hupdated : Readable (updated newUser oldUser) :=
    ⟨⟨hreadable.underscore, hreadable.dash⟩, hreadable.line, hreadable.last⟩
  refine .save (updated newUser oldUser) hconsistent hlaid
    (fun other hother => h.searchable other hother.1)
    ⟨(h.searchable oldUser hrecord).1, hupdated⟩ (h.without hrecord) ?_ ?_
  · intro other
    exact isRecord_saved (getUserByMail_updateUser h.consistent hcall hread hold)
  · intro rest
    have hname : next.existsKey (key .userName rest)
        = if oldUser.getFullName = (updated newUser oldUser).getFullName then
            db.existsKey (key .userName rest)
          else if nameRest (updated newUser oldUser) = rest then
            some (.text (updated newUser oldUser).email)
          else if nameRest oldUser = rest then none else db.existsKey (key .userName rest) :=
      (existsKey_name_applyUpdate happly rest).trans (existsKey_name_updateName db _ oldUser rest)
    rw [hname]
    -- the key is written anew only when the name changes
    by_cases hsame : oldUser.getFullName = (updated newUser oldUser).getFullName
    · have hkey : nameRest (updated newUser oldUser) = nameRest oldUser := by
        rw [nameRest, nameRest, hmail, hsame]
      have hentry : db.existsKey (key .userName (nameRest oldUser))
          = some (.text oldUser.email) :=
        (h.indexed _ _).mpr ⟨oldUser, hrecord, rfl, rfl⟩
      rw [if_pos hsame, hkey]
      split
      · rename_i heq
        rw [← heq, hentry]
        rfl
      · rfl
    · rw [if_neg hsame]

/-- A deletion takes the entry of the name away. -/
theorem NamesIndexed.deletePerson (h : NamesIndexed db) {id : Long}
    (hcall : deletePerson db id = (.ok (), next)) (hconsistent : Consistent next)
    (hlaid : Laid next) : NamesIndexed next := by
  cases profileStep_deletePerson h.consistent hcall with
  | @deleted _ user _ hread hrecord happly hview =>
      have hrecords : ∀ other, IsRecord next other ↔
          IsRecord db other ∧ other.email ≠ user.email :=
        fun other => isRecord_deleted hview
      have hnames : (fun rest => next.existsKey (key .userName rest)) = fun rest =>
          if nameRest user = rest then none else db.existsKey (key .userName rest) := by
        funext rest
        exact existsKey_name_applyDelete happly rest
      refine ⟨hconsistent, hlaid, fun other hother =>
        h.searchable other ((hrecords other).mp hother).1,
        ?_⟩
      have htable : IsRecord next = fun other => IsRecord db other ∧
          other.email ≠ user.email := by
        funext other
        exact propext (hrecords other)
      rw [hnames, htable]
      exact h.without hrecord

/-! ## Runs -/

/-- Registering, updating or deleting a user, when the call returns. -/
def AccountReturns (db : DB) (call : Call) (next : DB) : Prop :=
  call.OnAccount ∧ Returns db call next

/-- What a profile needs for the search: readable names, and a mail when it is registered. -/
def NameSafe (_ : DB) : Call → Prop
  | .savePerson juser _ => ∀ user, Person.ofJson juser = .ok user → user.email ≠ [] ∧
      Readable user
  | .updateUser juser => ∀ user, Person.ofJson juser = .ok user → Readable user
  | _ => True

/-- There is nobody to be indexed. -/
theorem NamesIndexed.empty : NamesIndexed ∅ := by
  have hnone : ∀ user, ¬ IsRecord ∅ user := by
    intro user hrecord
    simp [IsRecord, getUserByMail] at hrecord
  exact {
    consistent := Consistent.empty
    laid := fun other entry hentry => by simp at hentry
    searchable := fun user hrecord => absurd hrecord (hnone user)
    indexed := indexes_empty (fun rest => DB.existsKey_empty _) hnone }

/-- A safe call that returns keeps the index of the names. -/
theorem NamesIndexed.step (h : NamesIndexed db) {call : Call}
    (hcall : AccountReturns db call next)
    (hsafe : NameSafe db call) : NamesIndexed next := by
  obtain ⟨haccount, result, hexec⟩ := hcall
  have hconsistent : Consistent next := by
    have hexecuted := h.consistent.exec call
    rwa [hexec] at hexecuted
  have hlaid : Laid next := by
    have hexecuted := h.laid.exec call
    rwa [hexec] at hexecuted
  cases call with
  | savePerson juser forceID =>
      obtain ⟨id, hsaved, -⟩ := outcome_eq_ok.mp hexec
      exact h.savePerson hsaved hconsistent hlaid hsafe
  | updateUser juser =>
      obtain ⟨id, hupdated, -⟩ := outcome_eq_ok.mp hexec
      exact h.updateUser hupdated hconsistent hlaid hsafe
  | deletePerson id =>
      obtain ⟨_, hdeleted, -⟩ := outcome_eq_ok.mp hexec
      exact h.deletePerson hdeleted hconsistent hlaid
  | _ => exact absurd haccount id

/-- In every run of account calls that return and whose profiles are searchable, the search by
name is exact. -/
theorem searchByName_exact {calls : List Call}
    (h : Lib.Run (Lib.Guarded AccountReturns NameSafe) ∅ calls db) (hlib : lib.MatchingLines) :
    NameSearchExact lib db := by
  have hindexed : NamesIndexed db := by
    refine h.invariant NamesIndexed.empty ?_
    rintro before call after hbefore ⟨hcall, hsafe⟩
    exact hbefore.step hcall hsafe
  exact hindexed.searchExact hlib

/-- The positions of a subject are tried one after another. -/
def matchesLine (search subject : Text) : Bool :=
  (List.range (subject.length + 1)).any fun start =>
    search.isPrefixOf (subject.drop start) &&
      (subject.take start ++ subject.drop (start + search.length)).all (· ∉ lineTerminators)

/-- Matching within a line can be computed. -/
theorem matchesLine_iff {subject : Text} :
    matchesLine search subject = true ↔ MatchesLine search subject := by
  simp only [matchesLine, List.any_eq_true, List.mem_range, Bool.and_eq_true, List.all_eq_true,
    List.isPrefixOf_iff_prefix, decide_eq_true_eq]
  constructor
  · rintro ⟨start, -, ⟨after, hafter⟩, hline⟩
    refine ⟨subject.take start, after, ?_, ?_⟩
    · rw [List.append_assoc, hafter, List.take_append_drop]
    · rwa [← List.drop_drop, ← hafter, List.drop_left] at hline
  · rintro ⟨before, after, rfl, hline⟩
    refine ⟨before.length, by simp, ?_, ?_⟩
    · simp
    · simpa using hline

/-- Matching line by line, and numbers as in the other searches. -/
def TextLibrary.ecmaScript : TextLibrary where
  regex search := .ok (matchesLine search)
  stod := TextLibrary.containment.stod

/-- The library of the samples matches within lines. -/
theorem matchingLines_ecmaScript : TextLibrary.ecmaScript.MatchingLines :=
  fun _ => ⟨_, rfl, fun _ => matchesLine_iff⟩

/-- A user with the given names. -/
def called (firstName lastName : Text) : Person :=
  { Person.sample ['a'] [] [] with id := 1, firstName, lastName }

/-- That user registers. -/
def registersCalled (firstName lastName : Text) : Call :=
  .savePerson (called firstName lastName).serializeMe (-1)

/-- A dash in a name is a blank when it is read from the key: nobody is found by it. -/
theorem dash_not_found :
    Lib.Run AccountReturns ∅ [registersCalled "a-b".toList ['c']]
        (execAll [registersCalled "a-b".toList ['c']]) ∧
      searchByName .ecmaScript (execAll [registersCalled "a-b".toList ['c']]) [['-']] = .ok [] ∧
      IsRecord (execAll [registersCalled "a-b".toList ['c']]) (called "a-b".toList ['c']) ∧
      ['-'] <:+: shownName (called "a-b".toList ['c']) ∧
      ¬ NameSearchExact .ecmaScript (execAll [registersCalled "a-b".toList ['c']]) := by
  have hsearch : searchByName .ecmaScript (execAll [registersCalled "a-b".toList ['c']]) [['-']]
      = .ok [] := by decide
  have hrecord : IsRecord (execAll [registersCalled "a-b".toList ['c']])
      (called "a-b".toList ['c']) := by
    show getUserByMail _ _ = _
    decide
  have hname : ['-'] <:+: shownName (called "a-b".toList ['c']) := by decide
  have hcall : AccountReturns ∅ (registersCalled "a-b".toList ['c'])
      (execAll [registersCalled "a-b".toList ['c']]) :=
    ⟨trivial, some 1, exec_execAll [] (by decide)⟩
  refine ⟨Lib.Run.nil.snoc hcall, hsearch, hrecord, hname, ?_⟩
  intro hexact
  have hliteral : IsLiteral ['-'] := by
    intro c hc
    rw [List.mem_singleton.mp hc]
    decide
  obtain ⟨found, hfound, -, hmem⟩ := hexact ['-'] (by simp) hliteral
  rw [hsearch] at hfound
  cases hfound
  exact List.not_mem_nil ((hmem _).mpr ⟨hrecord, hname⟩)

/-- With plain names the user is found. -/
theorem searchByName_exact_called :
    NameSearchExact .ecmaScript (execAll [registersCalled ['b'] ['c']]) := by
  have hcall : AccountReturns ∅ (registersCalled ['b'] ['c'])
      (execAll [registersCalled ['b'] ['c']]) :=
    ⟨trivial, some 1, exec_execAll [] (by decide)⟩
  have hsafe : NameSafe ∅ (registersCalled ['b'] ['c']) := by
    intro user hread
    have hprofile : Person.ofJson (called ['b'] ['c']).serializeMe
        = .ok (called ['b'] ['c']) := by
      decide
    rw [hprofile] at hread
    cases hread
    have hlast : (called ['b'] ['c']).lastName ≠ [] := by decide
    have hline : ∀ c ∈ shownName (called ['b'] ['c']), c ∉ lineTerminators := by
      have hshown : shownName (called ['b'] ['c']) = ['b', ' ', 'c'] := rfl
      simp [hshown, lineTerminators]
    exact ⟨by decide, ⟨by decide, by decide⟩, hline, fun hnone => absurd hnone hlast⟩
  exact searchByName_exact (Lib.Run.nil.snoc ⟨hcall, hsafe⟩) matchingLines_ecmaScript

end TallerII.PersonManager
