import TallerII.Searches

/-!
# Searching by skill

The index of skills gives the users that a scan over all users gives, in every run of profile
calls that each meet `SkillSafe`. The invariant `SkillsExact` says that an index name lists the
mails of the users with the skill and no others. The operations on positions write to this index
too: taking the last mail out of a position deletes the skill of that name.
-/

namespace TallerII.PersonManager

open Manager Lib.Delimited

variable {db next : DB} {newUser oldUser user : Person} {mail skill : Text}

/-- The search by skill throws nothing and gives, each once, the users that have every skill. -/
def SkillSearchExact (db : DB) : Prop :=
  ∀ skills, skills ≠ [] → ∃ found users, searchBySkill db skills = .ok found ∧
    getAllUsers db = .ok users ∧ found.Perm (users.filter (·.hasEverySkill skills))

/-- The records are in order, and every name of the index lists exactly the users with the
skill. -/
structure SkillsExact (db : DB) : Prop extends Ordered db where
  listed : ∀ skill, lower skill = skill → ∃ mails, Lists (getUserSkillKey db skill) mails ∧
    mails.Nodup ∧ ∀ mail, mail ∈ mails ↔ ∃ user, getUserByMail db mail = .ok user ∧
      user.hasSkill skill

/-! ## The search -/

/-- Which skills a user has. -/
theorem hasSkill_iff : user.hasSkill skill = true ↔ skill ∈ user.skillNames := by
  simp [Person.hasSkill, Person.skillNames]

/-- On an exact index the search is exact. -/
theorem SkillsExact.searchExact (h : SkillsExact db) : SkillSearchExact db := by
  intro skills hne
  obtain ⟨first, rest, rfl⟩ := List.exists_cons_of_ne_nil hne
  obtain ⟨mails, hlists, hnodup, hmem⟩ := h.listed (lower first) (lower_lower first)
  have hmails : ∀ mail ∈ mails, ∃ user, getUserByMail db mail = .ok user := by
    intro mail hmail
    obtain ⟨user, hread, -⟩ := (hmem mail).mp hmail
    exact ⟨user, hread⟩
  have honce : ∀ user, getUserByMail db user.email = .ok user →
      user.hasEverySkill (first :: rest) → mails.count user.email = 1 := by
    intro user hread hall
    have hfirst : user.hasSkill (lower first) := List.all_eq_true.mp hall first List.mem_cons_self
    exact List.count_eq_one_of_mem hnodup ((hmem _).mpr ⟨user, hread, hfirst⟩)
  obtain ⟨found, users, hfound, husers, hperm⟩ := perm_of_listed h.consistent h.keyed
    (fun user => user.hasEverySkill (first :: rest)) hmails honce
  cases hvalue : getUserSkillKey db (lower first) with
  | none =>
      rw [hvalue] at hlists
      obtain rfl := hlists.eq_none_iff.mp rfl
      cases hfound
      refine ⟨[], users, ?_, husers, hperm⟩
      simp [searchBySkill, hvalue]
  | some contents =>
      rw [hvalue] at hlists
      refine ⟨_, users, ?_, husers, hperm⟩
      simp only [searchBySkill, hvalue, hlists.split, hfound]
      rfl

/-! ## Safe calls -/

/-- Registering a user keeps the index exact when the user has no skill, or else a mail that can
be listed and no skill twice. -/
def RegistersSkills (user : Person) : Prop :=
  user.skills = [] ∨ Plain ',' user.email ∧ user.skillNames.Nodup

/-- Every skill of the new profile that the old one does not have is there once, and then the mail
can be listed. -/
def AddsSkillsOnce (mail : Text) (newUser oldUser : Person) : Prop :=
  ∀ skill ∈ newUser.skillNames, skill ∈ oldUser.skillNames ∨
    newUser.skillNames.count skill = 1 ∧ Plain ',' mail

/-- A position from which the mail is taken, and which lists no other mail, is not the skill of
another user. -/
def SparesSkills (db : DB) (mail : Text) (titles : List Text) : Prop :=
  ∀ title ∈ titles, Emptied db mail title → ∀ other user, mail ≠ other →
    getUserByMail db other = .ok user → user.hasSkill title = false

/-- The calls that keep the index of skills exact. -/
def SkillSafe (db : DB) : Call → Prop
  | .savePerson juser _ => ∀ user, Person.ofJson juser = .ok user → RegistersSkills user
  | .updateUser juser => ∀ newUser oldUser, Person.ofJson juser = .ok newUser →
      getUserById db newUser.id = .ok oldUser →
      AddsSkillsOnce oldUser.email newUser oldUser ∧
        SparesSkills db oldUser.email (removedTitles newUser oldUser) ∧
        ∀ title ∈ removedTitles newUser oldUser, Emptied db oldUser.email title →
          title ∉ newUser.skillNames
  | .deletePerson id => ∀ user, getUserById db id = .ok user →
      SparesSkills db user.email user.positionTitles
  | _ => True

/-! ## Safe calls keep the index -/

/-- There is nobody to be indexed. -/
theorem SkillsExact.empty : SkillsExact ∅ := by
  refine { Ordered.empty with listed := ?_ }
  intro skill _
  have hnone : getUserSkillKey ∅ skill = none := by
    simp [getUserSkillKey, indexKey]
  refine ⟨[], ?_, List.nodup_nil, fun mail => ?_⟩
  · rw [hnone]
    exact Lists.missing
  · simp [getUserByMail]

/-- The names that a profile is listed under are its skills. -/
theorem listedSkills_eq (h : user.Normalized) : listedSkills user = user.skillNames :=
  List.map_congr_left fun skill hskill => h.skills skill hskill

/-- A mail that is added once at most, in a certain case. -/
theorem mem_append_once {mails : List Text} {mail other : Text} {p : Prop} [Decidable p] :
    other ∈ mails ++ List.replicate (if p then 1 else 0) mail ↔
      other ∈ mails ∨ other = mail ∧ p := by
  rw [List.mem_append, List.mem_replicate]
  split <;> simp_all

/-- A mail that is new may be added once. -/
theorem nodup_append_once {mails : List Text} {mail : Text} {p : Prop} [Decidable p]
    (hmails : mails.Nodup) (hnew : p → mail ∉ mails) :
    (mails ++ List.replicate (if p then 1 else 0) mail).Nodup := by
  split
  · rename_i hp
    refine List.nodup_append.mpr ⟨hmails, List.nodup_singleton mail, ?_⟩
    intro old hold other hother heq
    rw [List.eq_of_mem_singleton hother] at heq
    exact hnew hp (heq ▸ hold)
  · rwa [List.replicate_zero, List.append_nil]

/-- Registering. -/
theorem SkillsExact.saved (h : SkillsExact db) {counted : DB} {id : Long}
    (hnext : Ordered (insertPerson counted (registered user id))) (hnormalized : user.Normalized)
    (hsafe : RegistersSkills user) (hfree : db.existsKey (key .userMail user.email) = none)
    (hcounted : ∀ family rest, counted.existsKey (key family rest)
      = db.existsKey (key family rest))
    (hview : ∀ mail, getUserByMail (insertPerson counted (registered user id)) mail
      = if user.email = mail then .ok (registered user id) else getUserByMail db mail) :
    SkillsExact (insertPerson counted (registered user id)) := by
  refine { hnext with listed := ?_ }
  intro skill hskill
  obtain ⟨mails, hlists, hnodup, hmem⟩ := h.listed skill hskill
  have hnames : listedSkills (registered user id) = user.skillNames := by
    show listedSkills user = user.skillNames
    exact listedSkills_eq hnormalized
  -- a listed mail has a record, and the mail of the new user was free
  have hnew : user.email ∉ mails := by
    intro hlisted
    obtain ⟨other, hother, -⟩ := (hmem _).mp hlisted
    exact getUserByMail_of_free hfree other hother
  have hplain : skill ∈ listedSkills (registered user id) → Plain ',' user.email := by
    intro hin
    rw [hnames] at hin
    rcases hsafe with hnone | ⟨hplain, -⟩
    · simp [Person.skillNames, hnone] at hin
    · exact hplain
  have hbefore : Lists (getUserSkillKey counted skill) mails := by
    rwa [getUserSkillKey, indexKey_congr (hcounted _ _)]
  have hafter := hbefore.insertPerson_skill hplain
  have hcount : (listedSkills (registered user id)).count skill
      = if skill ∈ user.skillNames then 1 else 0 := by
    rw [hnames]
    split
    · rename_i hin
      rcases hsafe with hnone | ⟨-, hdistinct⟩
      · simp [Person.skillNames, hnone] at hin
      · exact List.count_eq_one_of_mem hdistinct hin
    · rename_i hout
      exact List.count_eq_zero_of_not_mem hout
  rw [hcount] at hafter
  refine ⟨_, hafter, nodup_append_once hnodup fun _ => hnew, ?_⟩
  · intro mail
    show mail ∈ mails ++ List.replicate _ user.email ↔ _
    rw [mem_append_once, hview, hmem]
    by_cases heq : user.email = mail
    · subst heq
      have hgone := getUserByMail_of_free hfree
      have hskills : (registered user id).hasSkill skill = true ↔ skill ∈ user.skillNames :=
        hasSkill_iff
      simp [hgone, hskills]
    · simp [heq, Ne.symm heq]

/-- A skill is added as often as the new profile has it, unless the old profile has it. -/
theorem count_addedNames (hnormalized : newUser.Normalized) :
    (addedNames newUser oldUser).count skill
      = if skill ∈ oldUser.skillNames then 0 else newUser.skillNames.count skill := by
  rw [addedNames_eq hnormalized, count_filter_not_mem]

/-- The skills that an update takes away. -/
theorem mem_removedNames :
    skill ∈ removedNames newUser oldUser ↔
      skill ∈ oldUser.skillNames ∧ skill ∉ newUser.skillNames := by
  simp [removedNames_eq]

/-- Saving an updated user leaves the entries of skills. -/
theorem existsKey_skill_saveUpdated (db : DB) (newUser oldUser : Person) (skill : Text) :
    (saveUpdated db newUser oldUser).existsKey (key .userSkill skill)
      = db.existsKey (key .userSkill skill) := by
  unfold saveUpdated updatePassword
  split
  · simp [saveUser]
  · split <;> simp [saveUser, saveUserPasswordKey, deleteUserPasswordKey]

/-- The position loop of a store that has the positions of another one empties no more than it
would there. -/
theorem Emptied.of_added {title : Text} {names : List Text}
    (hsame : ∀ other, getUserJobPositionKey next other = getUserJobPositionKey db other)
    (hthere : (getUserJobPositionKey db (lower title)).isSome)
    (h : Emptied (addMails .userJobPosition mail next names) mail title) :
    Emptied db mail title := by
  have hkept : (getUserJobPositionKey next (lower title)).isSome := by rwa [hsame]
  obtain ⟨contents, hcontents, hnil⟩ := emptied_of_addMails hkept h
  rw [hsame] at hcontents
  exact ⟨contents, hcontents, hnil⟩

/-- The list of a skill after an update: the loops over skills add and filter, and then the loop
over positions may delete it. -/
theorem Lists.applyUpdate_skill {mails : List Text} {id : Long} (h : Consistent db)
    (hold : getUserByMail db oldUser.email = .ok oldUser)
    (hlists : Lists (getUserSkillKey db skill) mails)
    (hplain : skill ∈ addedNames newUser oldUser → Plain ',' newUser.email)
    (happly : applyUpdate db newUser oldUser = (.ok id, next)) :
    ∃ added, added = mails ++ List.replicate ((addedNames newUser oldUser).count skill)
        newUser.email ∧
      (Lists (getUserSkillKey next skill) (if skill ∈ removedNames newUser oldUser
          then added.filter (· ≠ newUser.email) else added) ∨
        getUserSkillKey next skill = none ∧ skill ∈ removedTitles newUser oldUser ∧
          Emptied db newUser.email skill) := by
  obtain ⟨-, skilled, positioned, hskilled, hpositioned, rfl⟩ := applyUpdate_eq_ok.mp happly
  have hpositions : ∀ other, getUserJobPositionKey skilled other
      = getUserJobPositionKey db other := by
    intro other
    have hkept := existsKey_position_updateSkills db newUser oldUser other
    rw [hskilled] at hkept
    exact indexKey_congr hkept
  have hstart : Lists (getUserSkillKey (updateName db newUser oldUser) skill) mails := by
    rwa [getUserSkillKey, indexKey_congr (existsKey_skill_updateName db newUser oldUser skill)]
  rw [updateSkills_eq] at hskilled
  have hadded : Lists (getUserSkillKey (PersonManager.addMails .userSkill newUser.email
      (updateName db newUser oldUser) (addedNames newUser oldUser)) skill) _ :=
    hstart.addMails hplain
  have hremoved := hadded.deleteUserFromSkills hskilled
  have hsaved : getUserSkillKey (saveUpdated positioned newUser oldUser) skill
      = getUserSkillKey positioned skill :=
    indexKey_congr (existsKey_skill_saveUpdated _ _ _ _)
  have htitled : getUserSkillKey (PersonManager.addMails .userJobPosition newUser.email skilled
      (addedTitles newUser oldUser)) skill = getUserSkillKey skilled skill :=
    indexKey_congr (existsKey_addMails (by simp))
  refine ⟨_, rfl, ?_⟩
  rw [hsaved]
  have hloop := getUserSkillKey_deleteUserFromJobPositions newUser.email
    (PersonManager.addMails .userJobPosition newUser.email skilled (addedTitles newUser oldUser))
    (removedTitles newUser oldUser) skill
  rw [← updateWorkHistory_eq, hpositioned, htitled] at hloop
  rcases hloop with hkept | ⟨hnone, htitle, hempty⟩
  · left
    rw [hkept]
    exact hremoved
  · refine .inr ⟨hnone, htitle, hempty.of_added hpositions ?_⟩
    obtain ⟨job, hjob, rfl⟩ := List.mem_map.mp htitle
    exact h.position _ _ hold job.positionTitle
      (List.mem_map_of_mem (List.mem_of_mem_filter hjob))

/-- A skill that an update adds is a new one, and added once. -/
theorem count_addedNames_once (hnormalized : newUser.Normalized)
    (hadds : AddsSkillsOnce mail newUser oldUser) :
    (addedNames newUser oldUser).count skill
      = if skill ∈ newUser.skillNames ∧ skill ∉ oldUser.skillNames then 1 else 0 := by
  rw [count_addedNames hnormalized]
  by_cases hold : skill ∈ oldUser.skillNames
  · simp [hold]
  · by_cases hnew : skill ∈ newUser.skillNames
    · rcases hadds skill hnew with hhad | ⟨hone, -⟩
      · exact absurd hhad hold
      · simp [hold, hnew, hone]
    · simp [hold, hnew, List.count_eq_zero_of_not_mem hnew]

/-- A mail that is added under a skill is plain when each skill is added once. -/
theorem plain_of_added (hnormalized : newUser.Normalized)
    (hadds : AddsSkillsOnce mail newUser oldUser) (hadded : skill ∈ addedNames newUser oldUser) :
    Plain ',' mail := by
  rw [addedNames_eq hnormalized] at hadded
  obtain ⟨hnew, hout⟩ := List.mem_filter.mp hadded
  rcases hadds skill hnew with hhad | ⟨-, hplain⟩
  · exact absurd hhad (of_decide_eq_true hout)
  · exact hplain

/-- Adding a mail to the list of a skill that only the new profile has, and taking it out of that
of a skill that only the old one has: the mail is listed iff the new profile has the skill. -/
theorem mem_relisted {mails : List Text} {other : Text}
    (hheld : mail ∈ mails ↔ skill ∈ oldUser.skillNames) :
    other ∈ (if skill ∈ removedNames newUser oldUser
        then (mails ++ List.replicate (if skill ∈ newUser.skillNames ∧
          skill ∉ oldUser.skillNames then 1 else 0) mail).filter (· ≠ mail)
        else mails ++ List.replicate (if skill ∈ newUser.skillNames ∧
          skill ∉ oldUser.skillNames then 1 else 0) mail) ↔
      if mail = other then skill ∈ newUser.skillNames else other ∈ mails := by
  by_cases heq : mail = other
  · subst heq
    rw [if_pos rfl]
    split
    · rename_i hremoved
      have hout := (mem_removedNames.mp hremoved).2
      simp [hout]
    · rename_i hkept
      have hstays : skill ∈ oldUser.skillNames → skill ∈ newUser.skillNames := by
        intro hold
        by_contra hout
        exact hkept (mem_removedNames.mpr ⟨hold, hout⟩)
      rw [mem_append_once, hheld]
      tauto
  · -- neither adding nor taking out is about the others
    have hsame : other ∈ mails ++ List.replicate (if skill ∈ newUser.skillNames ∧
        skill ∉ oldUser.skillNames then 1 else 0) mail ↔ other ∈ mails := by
      rw [mem_append_once]
      exact or_iff_left fun hboth => heq hboth.1.symm
    rw [if_neg heq]
    split
    · rw [List.mem_filter, hsame]
      exact and_iff_left (by simpa using Ne.symm heq)
    · exact hsame

/-- Updating. -/
theorem SkillsExact.updated (h : SkillsExact db) {id : Long} (hnext : Ordered next)
    (hmail : newUser.email = oldUser.email) (hnormalized : newUser.Normalized)
    (hrecord : getUserByMail db oldUser.email = .ok oldUser)
    (hadds : AddsSkillsOnce newUser.email newUser oldUser)
    (hspares : SparesSkills db newUser.email (removedTitles newUser oldUser))
    (hown : ∀ title ∈ removedTitles newUser oldUser, Emptied db newUser.email title →
      title ∉ newUser.skillNames)
    (happly : applyUpdate db newUser oldUser = (.ok id, next))
    (hview : ∀ mail, getUserByMail next mail = if oldUser.email = mail then
      .ok (mergeUser newUser oldUser) else getUserByMail db mail) : SkillsExact next := by
  refine { hnext with listed := ?_ }
  intro skill hskill
  obtain ⟨mails, hlists, hnodup, hmem⟩ := h.listed skill hskill
  -- what the list says of the user who is updated, and what it should say afterwards
  have hheld : newUser.email ∈ mails ↔ skill ∈ oldUser.skillNames := by
    rw [hmem, hmail, hrecord, ← hasSkill_iff]
    simp
  have hviewed : ∀ mail, (∃ user, getUserByMail next mail = .ok user ∧ user.hasSkill skill) ↔
      if newUser.email = mail then skill ∈ newUser.skillNames else mail ∈ mails := by
    intro mail
    rw [hview, ← hmail]
    split
    · have hmerged : (mergeUser newUser oldUser).hasSkill skill = true ↔
          skill ∈ newUser.skillNames := hasSkill_iff
      simp [hmerged]
    · exact (hmem mail).symm
  obtain ⟨added, hadded, hafter⟩ := hlists.applyUpdate_skill h.consistent hrecord
    (plain_of_added hnormalized hadds) happly
  rw [count_addedNames_once hnormalized hadds] at hadded
  subst hadded
  rcases hafter with hafter | ⟨hnone, htitle, hempty⟩
  · have hdistinct := nodup_append_once (p := skill ∈ newUser.skillNames ∧
      skill ∉ oldUser.skillNames) hnodup fun hnew => mt hheld.mp hnew.2
    refine ⟨_, hafter, ?_, fun mail => ?_⟩
    · split
      · exact hdistinct.filter _
      · exact hdistinct
    · rw [hviewed]
      exact mem_relisted hheld
  · -- the position deleted the skill of its name: nobody may have it
    refine ⟨[], by rw [hnone]; exact Lists.missing, List.nodup_nil, fun mail => ?_⟩
    rw [hviewed]
    split
    · simp [hown skill htitle hempty]
    · rename_i hne
      constructor
      · intro hnil
        simp at hnil
      · intro hlisted
        obtain ⟨user, hread, hhas⟩ := (hmem mail).mp hlisted
        rw [hspares skill htitle hempty mail user hne hread] at hhas
        cases hhas

/-- Taking a mail out of the list of a skill that its user has: the others are listed as before.
-/
theorem mem_unlisted {mails : List Text} {other : Text}
    (hheld : mail ∈ mails ↔ skill ∈ user.skillNames) :
    other ∈ (if skill ∈ user.skillNames then mails.filter (· ≠ mail) else mails) ↔
      mail ≠ other ∧ other ∈ mails := by
  split
  · rw [List.mem_filter, and_comm, decide_eq_true_iff, ne_comm]
  · rename_i hout
    constructor
    · intro hlisted
      exact ⟨fun heq => hout (hheld.mp (heq ▸ hlisted)), hlisted⟩
    · exact And.right

/-- Deleting. -/
theorem SkillsExact.deleted (h : SkillsExact db) {id : Long} (hnext : Ordered next)
    (hrecord : getUserByMail db user.email = .ok user)
    (hspares : SparesSkills db user.email user.positionTitles)
    (happly : applyDelete db id user = (.ok (), next))
    (hview : ∀ mail, getUserByMail next mail = if user.email = mail then
      .error (.userNotFoundMail mail) else getUserByMail db mail) : SkillsExact next := by
  refine { hnext with listed := ?_ }
  intro skill hskill
  obtain ⟨mails, hlists, hnodup, hmem⟩ := h.listed skill hskill
  obtain ⟨skilled, positioned, hskilled, hpositioned, rfl⟩ := applyDelete_eq_ok.mp happly
  have hstart : Lists (getUserSkillKey (deleteAccount db user) skill) mails := by
    rwa [getUserSkillKey, indexKey_deleteAccount (.inl rfl)]
  have hremoved := hstart.deleteUserFromSkills hskilled
  have hheld : user.email ∈ mails ↔ skill ∈ user.skillNames := by
    rw [hmem, hrecord, ← hasSkill_iff]
    simp
  have hviewed : ∀ mail, (∃ other, getUserByMail (deleteUser positioned user) mail = .ok other ∧
      other.hasSkill skill) ↔ user.email ≠ mail ∧ mail ∈ mails := by
    intro mail
    rw [hview]
    split
    · rename_i heq
      simp [heq]
    · rename_i hne
      rw [← hmem]
      simp [hne]
  have hrecorded : getUserSkillKey (deleteUser positioned user) skill
      = getUserSkillKey positioned skill := by
    refine indexKey_congr ?_
    simp [deleteUser]
  have hloop := getUserSkillKey_deleteUserFromJobPositions user.email skilled user.positionTitles
    skill
  rw [hpositioned] at hloop
  rcases hloop with hkept | ⟨hnone, htitle, hempty⟩
  · -- no position deleted the name: the mail is filtered out of the list, when it was there
    refine ⟨_, by rw [hrecorded, hkept]; exact hremoved, ?_, fun mail => ?_⟩
    · split
      · exact hnodup.filter _
      · exact hnodup
    · rw [hviewed]
      exact mem_unlisted hheld
  · -- the position deleted the skill of its name, which nobody else may have
    obtain ⟨contents, hcontents, hnil⟩ := hempty
    rw [getUserJobPositionKey_of_skilled hskilled] at hcontents
    refine ⟨[], by rw [hrecorded, hnone]; exact Lists.missing, List.nodup_nil, fun mail => ?_⟩
    rw [hviewed]
    constructor
    · intro hnone
      simp at hnone
    · rintro ⟨hne, hlisted⟩
      obtain ⟨other, hread, hhas⟩ := (hmem mail).mp hlisted
      rw [hspares skill htitle ⟨contents, hcontents, hnil⟩ mail other hne hread] at hhas
      cases hhas

/-! ## Runs -/

/-- A safe profile call that returns keeps the index of skills exact. -/
theorem SkillsExact.step (h : SkillsExact db) {call : Call}
    (hcall : Profiles db call next) (hsafe : SkillSafe db call) : SkillsExact next := by
  have hnext : Ordered next := h.toOrdered.step hcall
  cases h.toOrdered.profileStep hcall with
  | saved hread hfree hcounted hview =>
      exact h.saved hnext (Person.normalized_of_ofJson hread) (hsafe _ hread) hfree hcounted hview
  | @updated _ newUser oldUser _ _ hread hold hrecord hnormalized happly hview =>
      obtain ⟨hadds, hspares, hown⟩ := hsafe newUser oldUser hread hold
      refine h.updated hnext ?_ hnormalized hrecord ?_ ?_ ?_ happly hview
      · rfl
      · exact hadds
      · exact hspares
      · exact hown
  | deleted hread hrecord happly hview =>
      exact h.deleted hnext hrecord (hsafe _ hread) happly hview

/-- In every run of profile calls that return and each meet the condition, the search by skill
gives what a scan over all users gives. -/
theorem searchBySkill_exact {calls : List Call}
    (h : Lib.Run (Lib.Guarded Profiles SkillSafe) ∅ calls db) : SkillSearchExact db := by
  have hexact : SkillsExact db := by
    refine h.invariant SkillsExact.empty ?_
    rintro before call after hbefore ⟨hcall, hsafe⟩
    exact hbefore.step hcall hsafe
  exact hexact.searchExact

/-- A user registers with a skill, and another one with a position of that name. -/
def registersNamesakes : List Call :=
  [.savePerson (Person.sample ['a'] [['x']] []).serializeMe (-1),
    .savePerson (Person.sample ['b'] [] [['x']]).serializeMe (-1)]

/-- When the second one is deleted, the search for the skill finds nobody. -/
theorem searchBySkill_after_delete :
    Lib.Run Profiles ∅ (registersNamesakes ++ [.deletePerson 2])
        (execAll (registersNamesakes ++ [.deletePerson 2])) ∧
      searchBySkill (execAll (registersNamesakes ++ [.deletePerson 2])) [['x']] = .ok [] ∧
      ¬ SkillSearchExact (execAll (registersNamesakes ++ [.deletePerson 2])) := by
  have hsearch : searchBySkill (execAll (registersNamesakes ++ [.deletePerson 2])) [['x']]
      = .ok [] := by decide
  refine ⟨?_, hsearch, ?_⟩
  · have hfirst : Profiles ∅ (registersNamesakes[0]) (execAll [registersNamesakes[0]]) :=
      ⟨rfl, some 1, exec_execAll [] (by decide)⟩
    have hsecond : Profiles (execAll [registersNamesakes[0]]) (registersNamesakes[1])
        (execAll registersNamesakes) :=
      ⟨rfl, some 2, exec_execAll [registersNamesakes[0]] (by decide)⟩
    have hthird : Profiles (execAll registersNamesakes) (.deletePerson 2)
        (execAll (registersNamesakes ++ [.deletePerson 2])) :=
      ⟨trivial, none, exec_execAll registersNamesakes (by decide)⟩
    exact ((Lib.Run.nil.snoc hfirst).snoc hsecond).snoc hthird
  · intro hexact
    obtain ⟨found, users, hfound, husers, hperm⟩ := hexact [['x']] (by simp)
    rw [hsearch] at hfound
    cases hfound
    have hnone := List.nil_perm.mp hperm
    have hall : ((getAllUsers (execAll (registersNamesakes ++ [.deletePerson 2]))).toOption.map
        fun users => (users.filter (·.hasEverySkill [['x']])).length) = some 1 := by decide
    rw [husers] at hall
    have hlength : (users.filter (·.hasEverySkill [['x']])).length = 1 := Option.some.inj hall
    rw [hnone] at hlength
    cases hlength

/-- Registering the first of them is safe. -/
theorem searchBySkill_exact_registered :
    SkillSearchExact (execAll [registersNamesakes[0]]) := by
  have hprofile : Profiles ∅ registersNamesakes[0] (execAll [registersNamesakes[0]]) :=
    ⟨rfl, some 1, exec_execAll [] (by decide)⟩
  have hsafe : SkillSafe ∅ registersNamesakes[0] := by
    intro user hread
    have hsample : Person.ofJson (Person.sample ['a'] [['x']] []).serializeMe
        = .ok (Person.sample ['a'] [['x']] []) := by decide
    rw [hsample] at hread
    cases hread
    exact .inr ⟨by decide, by decide⟩
  exact searchBySkill_exact (Lib.Run.nil.snoc ⟨hprofile, hsafe⟩)

end TallerII.PersonManager
