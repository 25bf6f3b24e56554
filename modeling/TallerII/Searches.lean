import TallerII.Accounts
import Mathlib.Data.List.Perm.Basic

/-!
# Searches over an index and over all users

`getAllUsers` visits the records in the order of their mails and finds each of them once. A search
over an index reads the records of the mails that it lists. `perm_of_listed` says when the two
give the same users.
-/

namespace TallerII.PersonManager

open Manager

variable {db next : DB} {user : Person} {mail : Text}

/-! ## The range of the records -/

/-- Texts that differ inside the first one are ordered as they begin. -/
theorem append_lt_append {left right : Text} (h : left < right) (hinit : ¬ left <+: right)
    (rest others : Text) : left ++ rest < right ++ others := by
  induction left generalizing right with
  | nil => exact absurd (List.nil_prefix) hinit
  | cons c left ih =>
      cases right with
      | nil => exact absurd h (List.not_lt_nil _)
      | cons d right =>
          rcases List.cons_lt_cons_iff.mp h with hlt | ⟨rfl, htail⟩
          · exact List.cons_lt_cons_iff.mpr (.inl hlt)
          · refine List.cons_lt_cons_iff.mpr (.inr ⟨rfl, ih htail ?_⟩)
            intro hprefix
            exact hinit (List.cons_prefix_cons.mpr ⟨rfl, hprefix⟩)

/-- No text is in front of its own beginning. -/
theorem not_append_lt (left rest : Text) : ¬ left ++ rest < left := by
  induction left with
  | nil => exact List.not_lt_nil rest
  | cons c left ih =>
      intro h
      rcases List.cons_lt_cons_iff.mp h with hlt | ⟨-, htail⟩
      · exact absurd hlt (lt_irrefl c)
      · exact ih htail

/-- The families before, in and after the range of the records. -/
theorem family_cases (family : Prefix) :
    (family.chars < Prefix.userMail.chars ∧ ¬ family.chars <+: Prefix.userMail.chars) ∨
      family = .userMail ∨ family = .userName ∨
      (Prefix.userName.chars < family.chars ∧ ¬ Prefix.userName.chars <+: family.chars) := by
  cases family <;> decide

/-- The keys from the first record to the first name are those of the records. -/
theorem range_records (family : Prefix) (rest : Text) :
    Prefix.userMail.chars ≤ key family rest ∧ key family rest < Prefix.userName.chars ↔
      family = .userMail := by
  rw [← not_lt]
  constructor
  · rintro ⟨hstart, hstop⟩
    rcases family_cases family with ⟨hlt, hinit⟩ | rfl | rfl | ⟨hlt, hinit⟩
    · refine absurd ?_ hstart
      have hbefore := append_lt_append hlt hinit rest []
      rwa [List.append_nil] at hbefore
    · rfl
    · exact absurd hstop (not_append_lt _ _)
    · have hafter := append_lt_append hlt hinit [] rest
      rw [List.append_nil] at hafter
      exact absurd hstop (lt_asymm hafter)
  · rintro rfl
    refine ⟨not_append_lt _ _, ?_⟩
    have hbefore := @append_lt_append Prefix.userMail.chars Prefix.userName.chars (by decide)
      (by decide) rest []
    rwa [List.append_nil] at hbefore

/-- The key of the counter is in front of the records. -/
theorem lastID_before_records : ¬ Prefix.userMail.chars ≤ lastID := by
  decide

/-! ## All users -/

/-- Every key of the store is the counter or belongs to a family. -/
def Keyed (db : DB) : Prop :=
  ∀ other entry, db.existsKey other = some entry → other = lastID ∨ ∃ family rest,
    other = key family rest

/-- The entries that `getAllUsers` visits are the records. -/
theorem mem_scan_records (h : Consistent db) (hkeyed : Keyed db) {entry : Text × Entry} :
    entry ∈ db.scan Prefix.userMail.chars Prefix.userName.chars ↔
      ∃ user, getUserByMail db user.email = .ok user ∧
        entry = (key .userMail user.email, .json user.serializeMe) := by
  rw [DB.mem_scan]
  constructor
  · rintro ⟨hentry, hstart, hstop, -⟩
    obtain ⟨other, value⟩ := entry
    rcases hkeyed other value hentry with rfl | ⟨family, rest, rfl⟩
    · exact absurd hstart lastID_before_records
    · obtain rfl := (range_records family rest).mp ⟨hstart, hstop⟩
      obtain ⟨user, rfl, rfl, hnormalized⟩ := h.record rest value hentry
      exact ⟨user, getUserByMail_of_stored hnormalized hentry, rfl⟩
  · rintro ⟨user, hread, rfl⟩
    obtain ⟨hstart, hstop⟩ := (range_records .userMail user.email).mpr rfl
    exact ⟨(h.getUserByMail_eq_ok.mp hread).1, hstart, hstop, rfl⟩

/-- Reading items one by one, when each can be read. -/
theorem exists_mapM_eq_ok {α β : Type} {read : α → Except Exn β} {items : List α}
    (h : ∀ item ∈ items, ∃ value, read item = .ok value) :
    ∃ values, items.mapM read = .ok values := by
  induction items with
  | nil => exact ⟨[], rfl⟩
  | cons item items ih =>
      obtain ⟨value, hvalue⟩ := h item List.mem_cons_self
      obtain ⟨values, hvalues⟩ := ih fun other hother => h other (List.mem_cons_of_mem _ hother)
      exact ⟨value :: values, by rw [List.mapM_cons, hvalue, hvalues]; rfl⟩

/-- What is read from each item gives the items back. -/
theorem map_of_mapM_eq_ok {α β : Type} {read : α → Except Exn β} {write : β → α} {items : List α}
    {values : List β} (hwrite : ∀ item ∈ items, ∀ value, read item = .ok value →
      write value = item)
    (h : items.mapM read = .ok values) : values.map write = items := by
  induction items generalizing values with
  | nil =>
      cases h
      rfl
  | cons item items ih =>
      simp only [List.mapM_cons, bind_eq_ok] at h
      obtain ⟨first, hfirst, rest, hrest, hvalues⟩ := h
      cases hvalues
      have htail := ih (fun other hother => hwrite other (List.mem_cons_of_mem _ hother)) hrest
      rw [List.map_cons, hwrite item List.mem_cons_self first hfirst, htail]

/-- The values that were read are those of the items. -/
theorem mem_of_mapM_eq_ok {α β : Type} {read : α → Except Exn β} {items : List α}
    {values : List β} (h : items.mapM read = .ok values) {value : β} :
    value ∈ values ↔ ∃ item ∈ items, read item = .ok value := by
  induction items generalizing values with
  | nil =>
      cases h
      simp
  | cons item items ih =>
      simp only [List.mapM_cons, bind_eq_ok] at h
      obtain ⟨first, hfirst, rest, hrest, hvalues⟩ := h
      cases hvalues
      simp [ih hrest, hfirst, eq_comm]

/-- The results that are kept stand in the order of the items they were read from. -/
theorem sublist_of_mapM {α β : Type} {read : α → Except Exn (Option β)} {label : β → α}
    {items : List α} {results : List (Option β)}
    (hlabel : ∀ item ∈ items, ∀ value, read item = .ok (some value) → label value = item)
    (h : items.mapM read = .ok results) : ((results.filterMap id).map label).Sublist items := by
  induction items generalizing results with
  | nil =>
      cases h
      exact List.Sublist.slnil
  | cons item items ih =>
      simp only [List.mapM_cons, bind_eq_ok] at h
      obtain ⟨first, hfirst, rest, hrest, hresults⟩ := h
      cases hresults
      have htail := ih (fun other hother => hlabel other (List.mem_cons_of_mem _ hother)) hrest
      cases first with
      | none => exact htail.cons item
      | some value =>
          rw [← hlabel item List.mem_cons_self value hfirst]
          exact htail.cons_cons _

/-- `getAllUsers` returns every user once. -/
theorem getAllUsers_spec (h : Consistent db) (hkeyed : Keyed db) :
    ∃ users, getAllUsers db = .ok users ∧ users.Nodup ∧
      ∀ user, user ∈ users ↔ getUserByMail db user.email = .ok user := by
  have hparse : ∀ user, getUserByMail db user.email = .ok user →
      Person.ofJson (Entry.json user.serializeMe).parse = .ok user := by
    intro user hread
    exact Person.ofJson_serializeMe (h.getUserByMail_eq_ok.mp hread).2.2
  have hread : ∀ entry ∈ db.scan Prefix.userMail.chars Prefix.userName.chars, ∃ user,
      Person.ofJson entry.2.parse = .ok user := by
    intro entry hentry
    obtain ⟨user, huser, rfl⟩ := (mem_scan_records h hkeyed).mp hentry
    exact ⟨user, hparse user huser⟩
  obtain ⟨users, husers⟩ := exists_mapM_eq_ok hread
  have hmem : ∀ user, user ∈ users ↔ getUserByMail db user.email = .ok user := by
    intro user
    rw [mem_of_mapM_eq_ok husers]
    constructor
    · rintro ⟨entry, hentry, hvalue⟩
      obtain ⟨stored, hstored, rfl⟩ := (mem_scan_records h hkeyed).mp hentry
      rw [hparse stored hstored] at hvalue
      cases hvalue
      exact hstored
    · intro huser
      exact ⟨_, (mem_scan_records h hkeyed).mpr ⟨user, huser, rfl⟩, hparse user huser⟩
  have hback : users.map (fun user => (key .userMail user.email, Entry.json user.serializeMe))
      = db.scan Prefix.userMail.chars Prefix.userName.chars := by
    refine map_of_mapM_eq_ok ?_ husers
    intro entry hentry value hvalue
    obtain ⟨stored, hstored, rfl⟩ := (mem_scan_records h hkeyed).mp hentry
    rw [hparse stored hstored] at hvalue
    cases hvalue
    rfl
  have hkeys := db.scan_keys_nodup Prefix.userMail.chars Prefix.userName.chars
  rw [← hback, List.map_map] at hkeys
  exact ⟨users, husers, List.Nodup.of_map _ hkeys, hmem⟩

/-! ## Users that an index lists -/

/-- Reading the listed mails gives each user as often as its mail is listed. -/
theorem count_of_mapM_getUserByMail (h : Consistent db) {mails : List Text} {found : List Person}
    (hfound : mails.mapM (getUserByMail db) = .ok found)
    (huser : getUserByMail db user.email = .ok user) :
    found.count user = mails.count user.email := by
  have hback : found.map Person.email = mails :=
    map_of_mapM_eq_ok (fun item _ value hvalue => (h.getUserByMail_eq_ok.mp hvalue).2.1) hfound
  have hstored : ∀ other ∈ found, getUserByMail db other.email = .ok other := by
    intro other hother
    obtain ⟨mail, -, hread⟩ := (mem_of_mapM_eq_ok hfound).mp hother
    rwa [(h.getUserByMail_eq_ok.mp hread).2.1]
  rw [← hback, List.count_eq_countP, List.count_eq_countP, List.countP_map]
  refine List.countP_congr fun other hother => ?_
  simp only [Function.comp_apply, beq_iff_eq]
  constructor
  · rintro rfl
    rfl
  · intro hmail
    have hsame := hstored other hother
    rw [hmail, huser] at hsame
    exact (Except.ok.inj hsame).symm

/-- When the mails listed are mails of users, and every user that satisfies the search is listed
once, then the search over the list finds the users that a scan over all finds. -/
theorem perm_of_listed (h : Consistent db) (hkeyed : Keyed db) {mails : List Text}
    (good : Person → Bool) (hmails : ∀ mail ∈ mails, ∃ user, getUserByMail db mail = .ok user)
    (honce : ∀ user, getUserByMail db user.email = .ok user → good user →
      mails.count user.email = 1) :
    ∃ found users, mails.mapM (getUserByMail db) = .ok found ∧ getAllUsers db = .ok users ∧
      (found.filter good).Perm (users.filter good) := by
  obtain ⟨found, hfound⟩ := exists_mapM_eq_ok hmails
  obtain ⟨users, husers, hnodup, hmem⟩ := getAllUsers_spec h hkeyed
  refine ⟨found, users, hfound, husers, List.perm_iff_count.mpr fun user => ?_⟩
  by_cases hgood : good user
  · rw [List.count_filter hgood, List.count_filter hgood]
    by_cases huser : getUserByMail db user.email = .ok user
    · rw [count_of_mapM_getUserByMail h hfound huser, honce user huser hgood,
        List.count_eq_one_of_mem hnodup ((hmem user).mpr huser)]
    · have hnotin : user ∉ found := by
        intro hin
        obtain ⟨mail, -, hread⟩ := (mem_of_mapM_eq_ok hfound).mp hin
        rw [← (h.getUserByMail_eq_ok.mp hread).2.1] at hread
        exact huser hread
      rw [List.count_eq_zero_of_not_mem hnotin,
        List.count_eq_zero_of_not_mem fun hin => huser ((hmem user).mp hin)]
  · have hnone : ∀ people : List Person, (people.filter good).count user = 0 := by
      intro people
      refine List.count_eq_zero_of_not_mem fun hin => ?_
      exact hgood (List.mem_filter.mp hin).2
    rw [hnone, hnone]

/-! ## The records after a call that returns -/

/-- The calls whose runs keep the indices: registering with the default id, updating and
deleting. -/
def IsProfileCall : Call → Prop
  | .savePerson _ forceID => forceID = -1
  | .updateUser _ => True
  | .deletePerson _ => True
  | _ => False

/-- A profile call that returns. -/
def Profiles (db : DB) (call : Call) (next : DB) : Prop :=
  IsProfileCall call ∧ Returns db call next

/-- The records and keys of the store are in order. -/
structure Ordered (db : DB) : Prop where
  consistent : Consistent db
  keyed : Keyed db

/-- There is no entry yet. -/
theorem Ordered.empty : Ordered ∅ :=
  ⟨Consistent.empty, fun other entry hentry => by simp at hentry⟩

/-- A key outside the families stays missing. -/
theorem Keyed.of_outside (h : Keyed db)
    (hsame : ∀ other, other ≠ lastID → (∀ family rest, other ≠ key family rest) →
      next.existsKey other = db.existsKey other) : Keyed next := by
  intro other entry hentry
  by_cases hcounter : other = lastID
  · exact .inl hcounter
  · refine .inr ?_
    by_contra hnone
    have hkeys : ∀ family rest, other ≠ key family rest := by
      intro family rest heq
      exact hnone ⟨family, rest, heq⟩
    rw [hsame other hcounter hkeys] at hentry
    rcases h other entry hentry with hlast | ⟨family, rest, heq⟩
    · exact hcounter hlast
    · exact hkeys family rest heq

/-- What is no key of a family is outside. -/
theorem outside_of_no_key {other : Text} (h : ∀ family rest, other ≠ key family rest) :
    Outside other :=
  ⟨h _, h _, fun _ => h _ _⟩

/-- A call of a profile that returns: registering, updating or deleting, with the records that it
leaves. -/
inductive ProfileStep (db : DB) : Call → DB → Prop where
  | saved {juser : Json} {user : Person} {id : Long} {counted : DB}
      (hread : Person.ofJson juser = .ok user)
      (hfree : db.existsKey (key .userMail user.email) = none)
      (hcounted : ∀ family rest, counted.existsKey (key family rest)
        = db.existsKey (key family rest))
      (hview : ∀ mail, getUserByMail (insertPerson counted (registered user id)) mail
        = if user.email = mail then .ok (registered user id) else getUserByMail db mail) :
      ProfileStep db (.savePerson juser (-1)) (insertPerson counted (registered user id))
  | updated {juser : Json} {newUser oldUser : Person} {id : Long} {next : DB}
      (hread : Person.ofJson juser = .ok newUser)
      (hold : getUserById db newUser.id = .ok oldUser)
      (hrecord : getUserByMail db oldUser.email = .ok oldUser)
      (hnormalized : ({ newUser with email := oldUser.email } : Person).Normalized)
      (happly : applyUpdate db { newUser with email := oldUser.email } oldUser = (.ok id, next))
      (hview : ∀ mail, getUserByMail next mail = if oldUser.email = mail then
        .ok (mergeUser { newUser with email := oldUser.email } oldUser)
        else getUserByMail db mail) :
      ProfileStep db (.updateUser juser) next
  | deleted {id : Long} {user : Person} {next : DB}
      (hread : getUserById db id = .ok user)
      (hrecord : getUserByMail db user.email = .ok user)
      (happly : applyDelete db id user = (.ok (), next))
      (hview : ∀ mail, getUserByMail next mail = if user.email = mail then
        .error (.userNotFoundMail mail) else getUserByMail db mail) :
      ProfileStep db (.deletePerson id) next

/-- A new user is read from the record, and the others as before. -/
theorem getUserByMail_insertPerson {user : Person} (hnormalized : user.Normalized) {counted : DB}
    (hcounted : ∀ family rest, counted.existsKey (key family rest)
      = db.existsKey (key family rest))
    (mail : Text) :
    getUserByMail (insertPerson counted user) mail
      = if user.email = mail then .ok user else getUserByMail db mail := by
  refine getUserByMail_of_saved hnormalized (fun mail => ?_) mail
  rw [existsKey_insertPerson (by simp) (by simp), existsKey_saveAccount]
  simp [userNameKey, hcounted]

/-- A registration is a step of the profiles. -/
theorem profileStep_savePerson {juser : Json} {id : Long}
    (hcall : savePerson db juser (-1) = (.ok id, next)) :
    ProfileStep db (.savePerson juser (-1)) next := by
  obtain ⟨user, counted, hread, hfree, hassigned, rfl⟩ := savePerson_eq_ok hcall
  have hcounted : ∀ family rest, counted.existsKey (key family rest)
      = db.existsKey (key family rest) := fun family rest => hassigned.existsKey key_ne_lastID
  exact .saved hread hfree hcounted (getUserByMail_insertPerson
    (normalized_registered (Person.normalized_of_ofJson hread) id) hcounted)

/-- An update is a step of the profiles. -/
theorem profileStep_updateUser (h : Consistent db) {juser : Json} {id : Long}
    (hcall : updateUser db juser = (.ok id, next)) : ProfileStep db (.updateUser juser) next := by
  obtain ⟨newUser, oldUser, hread, hold, happly⟩ := updateUser_eq_ok hcall
  obtain ⟨-, hrecord, -⟩ := h.getUserById_eq_ok.mp hold
  have hnormalized := h.normalized_update hread hrecord
  have hmail : ({ newUser with email := oldUser.email } : Person).email = oldUser.email := rfl
  refine .updated hread hold hrecord hnormalized happly ?_
  refine getUserByMail_of_saved (normalized_merged hnormalized oldUser) fun mail => ?_
  rw [existsKey_applyUpdate_ok hmail happly (outside_key (by decide) _),
    existsKey_saveUpdated hmail]
  simp [mergeUser]

/-- A deletion is a step of the profiles. -/
theorem profileStep_deletePerson (h : Consistent db) {id : Long}
    (hcall : deletePerson db id = (.ok (), next)) : ProfileStep db (.deletePerson id) next := by
  obtain ⟨user, hread, happly⟩ := deletePerson_eq_ok hcall
  obtain ⟨-, hrecord, -⟩ := h.getUserById_eq_ok.mp hread
  refine .deleted hread hrecord happly (getUserByMail_of_deleted fun mail => ?_)
  rw [existsKey_applyDelete_ok happly (outside_key (by decide) _),
    existsKey_deleteAccount (outside_key (by decide) _)]
  simp

/-- What the calls of a profile return. -/
theorem profiles_cases {call : Call} (hcall : Profiles db call next) :
    (∃ juser id, call = .savePerson juser (-1) ∧ savePerson db juser (-1) = (.ok id, next)) ∨
    (∃ juser id, call = .updateUser juser ∧ updateUser db juser = (.ok id, next)) ∨
    ∃ id, call = .deletePerson id ∧ deletePerson db id = (.ok (), next) := by
  obtain ⟨hprofile, result, hexec⟩ := hcall
  cases call with
  | savePerson juser forceID =>
      obtain rfl : forceID = -1 := hprofile
      obtain ⟨id, hsaved, -⟩ := outcome_eq_ok.mp hexec
      exact .inl ⟨juser, id, rfl, hsaved⟩
  | updateUser juser =>
      obtain ⟨id, hupdated, -⟩ := outcome_eq_ok.mp hexec
      exact .inr (.inl ⟨juser, id, rfl, hupdated⟩)
  | deletePerson id =>
      obtain ⟨_, hdeleted, -⟩ := outcome_eq_ok.mp hexec
      exact .inr (.inr ⟨id, rfl, hdeleted⟩)
  | _ => exact absurd hprofile id

/-- What a profile call that returns does. -/
theorem Ordered.profileStep (h : Ordered db) {call : Call} (hcall : Profiles db call next) :
    ProfileStep db call next := by
  rcases profiles_cases hcall with
    ⟨juser, id, rfl, hsaved⟩ | ⟨juser, id, rfl, hupdated⟩ | ⟨id, rfl, hdeleted⟩
  · exact profileStep_savePerson hsaved
  · exact profileStep_updateUser h.consistent hupdated
  · exact profileStep_deletePerson h.consistent hdeleted

/-- A profile call that returns keeps the records and keys in order. -/
theorem Ordered.step (h : Ordered db) {call : Call} (hcall : Profiles db call next) :
    Ordered next := by
  have hnext : Consistent next := by
    obtain ⟨-, result, hexec⟩ := hcall
    have hexecuted := h.consistent.exec call
    rwa [hexec] at hexecuted
  refine ⟨hnext, h.keyed.of_outside ?_⟩
  intro other hcounter hkeys
  have houtside := outside_of_no_key hkeys
  rcases profiles_cases hcall with
    ⟨juser, id, rfl, hsaved⟩ | ⟨juser, id, rfl, hupdated⟩ | ⟨id, rfl, hdeleted⟩
  · obtain ⟨user, counted, -, -, hassigned, rfl⟩ := savePerson_eq_ok hsaved
    rw [existsKey_insertPerson houtside.skill houtside.position, existsKey_saveAccount,
      if_neg (hkeys _ _).symm, if_neg (hkeys _ _).symm, userNameKey, if_neg (hkeys _ _).symm,
      if_neg (hkeys _ _).symm]
    exact hassigned.existsKey hcounter
  · obtain ⟨newUser, oldUser, -, -, happly⟩ := updateUser_eq_ok hupdated
    have hmail : ({ newUser with email := oldUser.email } : Person).email = oldUser.email := rfl
    rw [existsKey_applyUpdate_ok hmail happly houtside, existsKey_saveUpdated hmail,
      if_neg (hkeys _ _).symm, if_neg fun hboth => hkeys _ _ hboth.1.symm]
  · obtain ⟨user, -, happly⟩ := deletePerson_eq_ok hdeleted
    have hnone : ¬ (key .userPassword user.email = other ∨
        key .userUuid (toString user.id) = other) := by
      rintro (heq | heq)
      · exact hkeys _ _ heq.symm
      · exact hkeys _ _ heq.symm
    rw [existsKey_applyDelete_ok happly houtside, existsKey_deleteAccount houtside,
      if_neg (hkeys _ _).symm, if_neg hnone]

end TallerII.PersonManager
