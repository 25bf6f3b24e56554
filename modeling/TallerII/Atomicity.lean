import TallerII.Accounts

/-!
# Calls that throw

When do the account operations leave the store as it was if they throw? Lookups of positions never
fail in a reachable store, so only the loop over removed skills can throw after a write. The first
section says when that loop returns, the second when it throws without having written.
-/

namespace TallerII.PersonManager

open Manager Lib.Delimited

variable {db next : DB} {mail name : Text} {names : List Text} {newUser oldUser user : Person}

/-! ## When the loop over skills returns -/

/-- Every named skill is found, also when a name is repeated: the mail must not be the only one
under a repeated name. -/
def SkillsIndexed (db : DB) (mail : Text) (names : List Text) : Prop :=
  ∀ name ∈ names, ∃ contents, getUserSkillKey db name = some contents ∧
    (2 ≤ names.count name → withoutMail mail contents ≠ [])

/-- Whether a user is indexed depends on the entries of the skills alone. -/
theorem SkillsIndexed.congr (h : SkillsIndexed db mail names)
    (hsame : ∀ name ∈ names, getUserSkillKey next name = getUserSkillKey db name) :
    SkillsIndexed next mail names := by
  intro name hname
  rw [hsame name hname]
  exact h name hname

/-- One round turns the condition for a list into the condition for its rest. -/
theorem skillsIndexed_cons {rest : List Text} :
    SkillsIndexed db mail (name :: rest) ↔ (getUserSkillKey db name).isSome ∧
      SkillsIndexed (setKey db (key .userSkill name) (dropMail mail (getUserSkillKey db name)))
        mail rest := by
  constructor
  · intro h
    obtain ⟨contents, hcontents, hrepeat⟩ := h name List.mem_cons_self
    refine ⟨by simp [hcontents], fun other hother => ?_⟩
    rw [getUserSkillKey, indexKey_setKey]
    by_cases heq : name = other
    · subst heq
      -- the name comes again, so this round must leave a mail in its list
      have hcount : 1 ≤ rest.count name := List.one_le_count_iff.mpr hother
      have hne : withoutMail mail contents ≠ [] := hrepeat (by
        rw [List.count_cons_self]
        omega)
      refine ⟨withoutMail mail contents, ?_, fun _ => removePiece_again_ne_nil hne⟩
      rw [if_pos rfl, hcontents, dropMail, if_neg hne]
    · obtain ⟨found, hfound, hagain⟩ := h other (List.mem_cons_of_mem _ hother)
      refine ⟨found, by simpa [heq, getUserSkillKey] using hfound, fun htwice => hagain ?_⟩
      rwa [List.count_cons_of_ne heq]
  · rintro ⟨hthere, hrest⟩ other hother
    obtain ⟨contents, hcontents⟩ := Option.isSome_iff_exists.mp hthere
    -- a list that this round empties is deleted, and a later round would not find it
    have hvalue : ∀ other ∈ rest, name = other → withoutMail mail contents ≠ [] := by
      intro other hmem heq hnil
      obtain ⟨found, hfound, -⟩ := hrest other hmem
      rw [getUserSkillKey, indexKey_setKey, if_pos (by rw [heq]), hcontents, dropMail,
        if_pos hnil] at hfound
      cases hfound
    by_cases heq : name = other
    · subst heq
      refine ⟨contents, hcontents, fun htwice => ?_⟩
      rw [List.count_cons_self] at htwice
      have hmem : name ∈ rest := List.one_le_count_iff.mp (by omega)
      exact hvalue name hmem rfl
    · have hmem : other ∈ rest := (List.mem_cons.mp hother).resolve_left fun h => heq h.symm
      obtain ⟨found, hfound, hagain⟩ := hrest other hmem
      refine ⟨found, by simpa [getUserSkillKey, heq] using hfound, fun htwice => hagain ?_⟩
      rwa [List.count_cons_of_ne heq] at htwice

/-- The loop over skills returns iff the skills are found. -/
theorem deleteUserFromSkills_returns :
    (∃ next, deleteUserFromSkills mail db names = (.ok (), next)) ↔
      SkillsIndexed db mail names := by
  induction names generalizing db with
  | nil => simp [deleteUserFromSkills, forEach, SkillsIndexed]
  | cons first rest ih =>
      rw [skillsIndexed_cons, ← ih]
      constructor
      · rintro ⟨next, h⟩
        obtain ⟨middle, hfirst, hrest⟩ := forEach_cons_eq_ok.mp h
        obtain ⟨hthere, rfl⟩ := deleteUserFromSkill_eq_ok.mp hfirst
        exact ⟨hthere, next, hrest⟩
      · rintro ⟨hthere, next, hrest⟩
        refine ⟨next, forEach_cons_eq_ok.mpr ⟨_, ?_, hrest⟩⟩
        exact deleteUserFromSkill_found hthere

/-! ## When the loop over skills throws without a write -/

/-- The room that a value of an index takes; a missing one takes less than any other. -/
def room (value : Option Text) : Nat :=
  value.elim 0 (·.length + 1)

/-- Leaving a mail out keeps a value or makes it take less room. -/
theorem room_dropMail (mail : Text) (value : Option Text) :
    dropMail mail value = value ∨ room (dropMail mail value) < room value := by
  cases value with
  | none => exact .inl rfl
  | some contents =>
      by_cases hnil : withoutMail mail contents = []
      · rw [dropMail, if_pos hnil]
        exact .inr (Nat.succ_pos _)
      · rw [dropMail, if_neg hnil]
        rcases @removePiece_shrinks _ _ ',' mail contents with hsame | hless
        · exact .inl (congrArg some hsame)
        · exact .inr (Nat.succ_lt_succ hless)

/-- No skill takes more room after the loop. -/
theorem room_deleteUserFromSkills (mail : Text) (db : DB) (names : List Text) (other : Text) :
    room (getUserSkillKey (deleteUserFromSkills mail db names).2 other)
      ≤ room (getUserSkillKey db other) := by
  refine forEach_preserves
    (fun now => room (getUserSkillKey now other) ≤ room (getUserSkillKey db other)) ?_ le_rfl
  intro name _ before hbefore
  show room (getUserSkillKey (deleteUserFromSkill before name mail).2 other) ≤ _
  rw [deleteUserFromSkill_snd, getUserSkillKey, indexKey_setKey]
  split
  · rename_i heq
    obtain rfl : name = other := by simpa using heq
    rcases room_dropMail mail (getUserSkillKey before name) with hsame | hless
    · rwa [hsame]
    · omega
  · exact hbefore

/-- The loop keeps the skills that it does not name. -/
theorem getUserSkillKey_deleteUserFromSkills_of_not_mem (h : name ∉ names) :
    getUserSkillKey (deleteUserFromSkills mail db names).2 name = getUserSkillKey db name := by
  refine forEach_preserves (fun now => getUserSkillKey now name = getUserSkillKey db name) ?_ rfl
  intro other hother before hbefore
  show getUserSkillKey (deleteUserFromSkill before other mail).2 name = _
  have hne : ¬ key .userSkill other = key .userSkill name := by
    intro heq
    exact h ((key_inj.mp heq).2 ▸ hother)
  rw [deleteUserFromSkill_snd, getUserSkillKey, indexKey_setKey, if_neg hne]
  exact hbefore

/-- The loop throws at its first missing name, and every round before it writes what is there. -/
def ThrowsFirst (db : DB) (mail : Text) (names : List Text) : Prop :=
  ∃ before name after, names = before ++ name :: after ∧ getUserSkillKey db name = none ∧
    ∀ other ∈ before, ∃ contents, getUserSkillKey db other = some contents ∧
      withoutMail mail contents = contents ∧ contents ≠ []

/-- Writing what is there changes nothing. -/
theorem setKey_same {contents : Text} (h : getUserSkillKey db name = some contents)
    (hne : contents ≠ []) : setKey db (key .userSkill name) (some contents) = db := by
  obtain ⟨entry, hentry, htext⟩ := Option.map_eq_some_iff.mp h
  cases entry with
  | json document => exact absurd htext.symm hne
  | text stored =>
      have hsame : stored = contents := htext
      subst hsame
      exact DB.putKey_same hentry

/-- A deletion from the index that throws at the first skill changes nothing. -/
theorem deleteUserFromSkills_throwsFirst (h : ThrowsFirst db mail names) :
    deleteUserFromSkills mail db names = (.error .badImplementation, db) := by
  obtain ⟨before, name, after, rfl, hmissing, hbefore⟩ := h
  induction before with
  | nil =>
      show forEach _ db (name :: after) = _
      rw [forEach, deleteUserFromSkill_missing hmissing]
  | cons first rest ih =>
      obtain ⟨contents, hcontents, hsame, hne⟩ := hbefore first List.mem_cons_self
      have hround : deleteUserFromSkill db first mail = (.ok (), db) := by
        refine deleteUserFromSkill_eq_ok.mpr ⟨by simp [hcontents], ?_⟩
        rw [hcontents, dropMail, hsame, if_neg hne, setKey_same hcontents hne]
      show forEach _ db (first :: (rest ++ name :: after)) = _
      rw [forEach, hround]
      exact ih fun other hother => hbefore other (List.mem_cons_of_mem _ hother)

/-- A loop that throws with every skill as before threw first. -/
theorem throwsFirst_of_same {e : Exn} (h : deleteUserFromSkills mail db names = (.error e, next))
    (hsame : ∀ other, getUserSkillKey next other = getUserSkillKey db other) :
    ThrowsFirst db mail names := by
  induction names generalizing db with
  | nil => cases h
  | cons first rest ih =>
      cases hfirst : getUserSkillKey db first with
      | none => exact ⟨[], first, rest, rfl, hfirst, by simp⟩
      | some contents =>
          -- the value after the first round lies between the one before and the last one
          have hround := @deleteUserFromSkill_found db mail first (by simp [hfirst])
          have hrest : deleteUserFromSkills mail
              (setKey db (key .userSkill first) (dropMail mail (getUserSkillKey db first))) rest
              = (.error e, next) := by
            have hloop : forEach (fun db name => deleteUserFromSkill db name mail) db
                (first :: rest)
                = (.error e, next) := h
            rw [forEach, hround] at hloop
            exact hloop
          have hroom := room_deleteUserFromSkills mail
            (setKey db (key .userSkill first) (dropMail mail (getUserSkillKey db first)))
              rest first
          rw [hrest, hsame, getUserSkillKey, getUserSkillKey, indexKey_setKey, if_pos rfl]
            at hroom
          have hdrop : dropMail mail (some contents) = some contents := by
            rcases room_dropMail mail (some contents) with hkeep | hless
            · exact hkeep
            · rw [getUserSkillKey] at hfirst
              rw [hfirst] at hroom
              omega
          have hkept : withoutMail mail contents = contents ∧ contents ≠ [] := by
            rw [dropMail] at hdrop
            split at hdrop
            · cases hdrop
            · rename_i hne
              have heq := Option.some.inj hdrop
              exact ⟨heq, heq ▸ hne⟩
          rw [hfirst, hdrop, setKey_same hfirst hkept.2] at hrest
          obtain ⟨before, name, after, rfl, hmissing, hbefore⟩ := ih hrest hsame
          refine ⟨first :: before, name, after, rfl, hmissing, ?_⟩
          intro other hother
          rcases List.mem_cons.mp hother with rfl | hother
          · exact ⟨contents, hfirst, hkept⟩
          · exact hbefore other hother

/-! ## When adding writes nothing -/

/-- What an index loses of its room is at least one entry for each skill that is added. -/
theorem room_addMails (index : Prefix) (mail : Text) (db : DB) (names : List Text)
    (other : Text) :
    room (indexKey index db other) + names.count other
      ≤ room (indexKey index (addMails index mail db names) other) := by
  induction names generalizing db with
  | nil => simp [addMails]
  | cons first rest ih =>
      have hrest := ih (addMail index mail db first)
      have hfirst : room (indexKey index db other) + (if first = other then 1 else 0)
          ≤ room (indexKey index (addMail index mail db first) other) := by
        rw [indexKey_addMail]
        by_cases heq : first = other
        · subst heq
          rw [if_pos rfl, if_pos rfl]
          cases indexKey index db first with
          | none => simp [room]
          | some contents =>
              simp only [room, withMail, Option.elim, List.length_append, List.length_cons]
              omega
        · rw [if_neg heq, if_neg heq]
          exact le_rfl
      have hcount : (first :: rest).count other = rest.count other + if first
          = other then 1 else 0 := by
        rw [List.count_cons]
        simp
      calc room (indexKey index db other) + (first :: rest).count other
          = room (indexKey index db other) + (if first = other then 1 else 0)
            + rest.count other := by omega
        _ ≤ room (indexKey index (addMail index mail db first) other) + rest.count other := by
            omega
        _ ≤ room
          (indexKey index (addMails index mail (addMail index mail db first) rest) other) :=
            hrest

/-! ## Atomic calls -/

/-- A call that throws leaves the store as it was. -/
def Atomic (db : DB) (call : Call) : Prop :=
  ∀ e next, exec db call = (.error e, next) → next = db

/-- The key of the name is already where the new profile has it. -/
def NameKept (db : DB) (newUser oldUser : Person) : Prop :=
  oldUser.getFullName = newUser.getFullName ∨
    db.existsKey (userNameKey oldUser) = none ∧
      db.existsKey (userNameKey newUser) = some (.text newUser.email)

/-- The skills that an update removes are found, or the first lookup that fails comes before any
change: the name is kept, no skill is new, and the lists before it do not hold the mail. -/
def UpdateIndexed (db : DB) (newUser oldUser : Person) : Prop :=
  SkillsIndexed db newUser.email (removedNames newUser oldUser) ∨
    NameKept db newUser oldUser ∧ addedSkills newUser oldUser = [] ∧
      ThrowsFirst db newUser.email (removedNames newUser oldUser)

/-- With the mail kept, the entry of the name stays exactly when there is nothing to write. -/
theorem updateName_eq_iff (hmail : newUser.email = oldUser.email) :
    updateName db newUser oldUser = db ↔ NameKept db newUser oldUser := by
  unfold NameKept
  by_cases hname : oldUser.getFullName = newUser.getFullName
  · simp [updateName, hname]
  · have hkeys : userNameKey newUser ≠ userNameKey oldUser := by
      intro hsame
      have hrest := (key_inj.mp hsame).2
      rw [hmail] at hrest
      exact hname (List.append_cancel_right (List.append_cancel_right hrest)).symm
    have hwritten : updateName db newUser oldUser
        = (db.deleteKey (userNameKey oldUser)).putKey (userNameKey newUser)
            (.text newUser.email) := by
      rw [updateName, if_pos hname]
      rfl
    rw [hwritten]
    constructor
    · intro hsame
      have hold := congrArg (fun store : DB => store.existsKey (userNameKey oldUser)) hsame
      have hnew := congrArg (fun store : DB => store.existsKey (userNameKey newUser)) hsame
      simp only [DB.existsKey_putKey, DB.existsKey_deleteKey, if_neg hkeys, if_pos] at hold hnew
      exact .inr ⟨hold.symm, hnew.symm⟩
    · rintro (hsame | ⟨hold, hnew⟩)
      · exact absurd hsame hname
      · rw [DB.deleteKey_missing hold, DB.putKey_same hnew]

/-- The skills removed are not among the skills added. -/
theorem not_mem_addedNames (hnormalized : newUser.Normalized)
    (h : name ∈ removedNames newUser oldUser) : name ∉ addedNames newUser oldUser := by
  intro hadded
  rw [addedNames_eq hnormalized] at hadded
  rw [removedNames_eq] at h
  have hgone := (List.mem_filter.mp h).2
  exact of_decide_eq_true hgone (List.mem_of_mem_filter hadded)

/-- The skills that the loop of an update finds are those of the store before the update. -/
theorem getUserSkillKey_added (db : DB) (hmissing : name ∉ addedNames newUser oldUser) :
    getUserSkillKey (addMails .userSkill newUser.email (updateName db newUser oldUser)
      (addedNames newUser oldUser)) name = getUserSkillKey db name := by
  rw [getUserSkillKey, indexKey_addMails_of_not_mem hmissing]
  exact indexKey_congr (existsKey_skill_updateName db newUser oldUser name)

/-- An update returns when the skills it removes are found. -/
theorem applyUpdate_returns (h : Consistent db)
    (hold : getUserByMail db oldUser.email = .ok oldUser) (hnormalized : newUser.Normalized)
    (hskills : SkillsIndexed db newUser.email (removedNames newUser oldUser)) :
    ∃ next, applyUpdate db newUser oldUser = (.ok newUser.id, next) := by
  have hfound := hskills.congr fun name hname =>
    getUserSkillKey_added db (not_mem_addedNames hnormalized hname)
  obtain ⟨skilled, hskilled⟩ := deleteUserFromSkills_returns.mpr hfound
  rw [← updateSkills_eq] at hskilled
  have htitles : ∀ title ∈ removedTitles newUser oldUser,
      (getUserJobPositionKey (addMails .userJobPosition newUser.email skilled
        (addedTitles newUser oldUser)) (lower title)).isSome := by
    intro title htitle
    obtain ⟨job, hjob, rfl⟩ := List.mem_map.mp htitle
    refine isSome_indexKey_addMails (.inl ?_)
    have hthere := h.position _ _ hold job.positionTitle
      (List.mem_map_of_mem (List.mem_of_mem_filter hjob))
    have hkept := existsKey_position_updateSkills db newUser oldUser (lower job.positionTitle)
    rw [hskilled] at hkept
    show (getUserJobPositionKey skilled (lower job.positionTitle)).isSome
    rwa [isSome_getUserJobPositionKey_congr hkept]
  obtain ⟨positioned, hpositioned⟩ := deleteUserFromJobPositions_returns htitles
  rw [← updateWorkHistory_eq] at hpositioned
  exact ⟨_, applyUpdate_eq_ok.mpr ⟨rfl, skilled, positioned, hskilled, hpositioned, rfl⟩⟩

/-- An update whose removed skills are not all found throws, and leaves what the loop left. -/
theorem applyUpdate_throws (hnormalized : newUser.Normalized)
    (hskills : ¬ SkillsIndexed db newUser.email (removedNames newUser oldUser)) :
    ∃ e next, deleteUserFromSkills newUser.email (addMails .userSkill newUser.email
        (updateName db newUser oldUser) (addedNames newUser oldUser))
        (removedNames newUser oldUser) = (.error e, next) ∧
      applyUpdate db newUser oldUser = (.error e, next) := by
  rcases hloop : deleteUserFromSkills newUser.email (addMails .userSkill newUser.email
    (updateName db newUser oldUser) (addedNames newUser oldUser)) (removedNames newUser oldUser)
    with ⟨result, next⟩
  cases result with
  | ok _ =>
      refine absurd ?_ hskills
      refine (deleteUserFromSkills_returns.mp ⟨next, hloop⟩).congr fun name hname => ?_
      exact (getUserSkillKey_added db (not_mem_addedNames hnormalized hname)).symm
  | error e =>
      refine ⟨e, next, rfl, ?_⟩
      rw [applyUpdate, updateSkills_eq, hloop]

/-- An update that throws after the loop over removed skills left the store as it was. -/
theorem unchanged_iff {e : Exn} (hmail : newUser.email = oldUser.email)
    (hnormalized : newUser.Normalized)
    (h : deleteUserFromSkills newUser.email (addMails .userSkill newUser.email
        (updateName db newUser oldUser) (addedNames newUser oldUser))
        (removedNames newUser oldUser) = (.error e, next)) :
    next = db ↔ NameKept db newUser oldUser ∧ addedSkills newUser oldUser = [] ∧
      ThrowsFirst db newUser.email (removedNames newUser oldUser) := by
  constructor
  · rintro rfl
    have hadded : addedNames newUser oldUser = [] := by
      by_contra hne
      obtain ⟨name, hname⟩ := List.exists_mem_of_ne_nil _ hne
      -- an added name takes more room, and the loop over the removed ones does not name it
      have hkept : getUserSkillKey next name = getUserSkillKey (addMails .userSkill newUser.email
          (updateName next newUser oldUser) (addedNames newUser oldUser)) name := by
        have hloop := @getUserSkillKey_deleteUserFromSkills_of_not_mem
          (addMails .userSkill newUser.email (updateName next newUser oldUser)
            (addedNames newUser oldUser)) newUser.email name (removedNames newUser oldUser)
          fun hremoved => not_mem_addedNames hnormalized hremoved hname
        rwa [h] at hloop
      have hroom := room_addMails .userSkill newUser.email (updateName next newUser oldUser)
        (addedNames newUser oldUser) name
      have hbefore : indexKey .userSkill (updateName next newUser oldUser) name
          = getUserSkillKey next name := indexKey_congr (existsKey_skill_updateName _ _ _ _)
      have hcount : 1 ≤ (addedNames newUser oldUser).count name := List.one_le_count_iff.mpr hname
      rw [hbefore, hkept] at hroom
      simp only [getUserSkillKey] at hroom
      omega
    rw [hadded] at h
    have hname : updateName next newUser oldUser = next := by
      apply DB.ext
      intro other
      by_cases hskill : ∃ rest, other = key .userSkill rest
      · obtain ⟨rest, rfl⟩ := hskill
        exact existsKey_skill_updateName _ _ _ _
      · have hother : ∀ rest, other ≠ key .userSkill rest := fun rest heq => hskill ⟨rest, heq⟩
        have hloop := @existsKey_deleteUserFromSkills (updateName next newUser oldUser)
          newUser.email (removedNames newUser oldUser) other hother
        have hstart : addMails .userSkill newUser.email (updateName next newUser oldUser) []
            = updateName next newUser oldUser := rfl
        rw [← hstart, h] at hloop
        exact hloop.symm
    refine ⟨(updateName_eq_iff hmail).mp hname, List.map_eq_nil_iff.mp hadded, ?_⟩
    rw [hname] at h
    exact throwsFirst_of_same h fun _ => rfl
  · rintro ⟨hname, hadded, hthrows⟩
    have hnames : addedNames newUser oldUser = [] := List.map_eq_nil_iff.mpr hadded
    rw [(updateName_eq_iff hmail).mpr hname, hnames] at h
    have hloop : deleteUserFromSkills newUser.email db (removedNames newUser oldUser)
        = (.error e, next) := h
    rw [deleteUserFromSkills_throwsFirst hthrows] at hloop
    cases hloop
    rfl

/-! ## The account operations -/

/-- `savePerson` is atomic. -/
theorem atomic_savePerson (db : DB) (juser : Json) (forceID : Long) :
    Atomic db (.savePerson juser forceID) := by
  intro e next h
  have hcall : savePerson db juser forceID = (.error e, next) := outcome_eq_error.mp h
  rcases savePerson_cases db juser forceID with ⟨thrown, herror⟩ | ⟨_, _, _, _, _, _, hsaved⟩
  · rw [herror] at hcall
    cases hcall
    rfl
  · rw [hsaved] at hcall
    cases hcall

/-- `deletePerson` is atomic iff there is no such user or the skills of the user are found. -/
theorem atomic_deletePerson (h : Consistent db) (id : Long) :
    Atomic db (.deletePerson id) ↔ ∀ user, getUserById db id = .ok user →
      SkillsIndexed db user.email user.skillNames := by
  have hcall : ∀ e next, exec db (.deletePerson id) = (.error e, next) ↔
      deletePerson db id = (.error e, next) := fun e next => outcome_eq_error
  rcases deletePerson_cases db id with ⟨thrown, hnone, herror⟩ | ⟨user, hread, happly⟩
  · constructor
    · intro _ user huser
      rw [hnone] at huser
      cases huser
    · intro _ e next hthrow
      rw [hcall, herror] at hthrow
      cases hthrow
      rfl
  · obtain ⟨hmail, hrecord, hid⟩ := h.getUserById_eq_ok.mp hread
    have hskill : ∀ name, getUserSkillKey (deleteAccount db user) name
        = getUserSkillKey db name :=
      indexKey_deleteAccount (.inl rfl) db user
    rw [hread]
    have honly : (∀ other, Except.ok user = (.ok other : Except Exn Person) →
        SkillsIndexed db other.email other.skillNames) ↔
        SkillsIndexed db user.email user.skillNames :=
      ⟨fun hall => hall user rfl, fun hone other hsame => by cases hsame; exact hone⟩
    rw [honly]
    constructor
    · -- a deletion that throws has already deleted the id
      intro hatomic
      rcases hloop : deleteUserFromSkills user.email (deleteAccount db user) user.skillNames with
        ⟨result, skilled⟩
      cases result with
      | ok _ =>
          exact (deleteUserFromSkills_returns.mp ⟨skilled, hloop⟩).congr fun name _ =>
            (hskill name).symm
      | error e =>
          have hthrown : applyDelete db id user = (.error (.userNotFoundId id), skilled) := by
            rw [applyDelete, hloop]
          have hsame := hatomic _ _ ((hcall _ _).mpr (happly.trans hthrown))
          have hgone := existsKey_applyDelete_error hthrown
            (outside_key (by decide) (toString user.id) : Outside (key .userUuid _))
          rw [hsame, existsKey_deleteAccount (outside_key (by decide) _), hid, hmail] at hgone
          simp at hgone
    · -- when the skills are found, neither loop throws
      intro hindexed e next hthrow
      rw [hcall, happly] at hthrow
      obtain ⟨skilled, hskilled⟩ := deleteUserFromSkills_returns.mpr
        (hindexed.congr fun name _ => hskill name)
      have htitles : ∀ title ∈ user.positionTitles,
          (getUserJobPositionKey skilled (lower title)).isSome := by
        intro title htitle
        rw [getUserJobPositionKey_of_skilled hskilled]
        exact h.position _ _ hrecord title htitle
      obtain ⟨positioned, hpositioned⟩ := deleteUserFromJobPositions_returns htitles
      rw [applyDelete_eq_ok.mpr ⟨skilled, positioned, hskilled, hpositioned, rfl⟩] at hthrow
      cases hthrow

/-- `updateUser` is atomic iff a profile is missing or its removed skills are found, or the first
lookup that fails comes before any change. -/
theorem atomic_updateUser (h : Consistent db) (juser : Json) :
    Atomic db (.updateUser juser) ↔ ∀ newUser oldUser, Person.ofJson juser = .ok newUser →
      getUserById db newUser.id = .ok oldUser →
      UpdateIndexed db { newUser with email := oldUser.email } oldUser := by
  have hcall : ∀ e next, exec db (.updateUser juser) = (.error e, next) ↔
      updateUser db juser = (.error e, next) := fun e next => outcome_eq_error
  rcases updateUser_cases db juser
    with ⟨thrown, herror, hnone⟩ | ⟨newUser, oldUser, hread, hold, happly⟩
  · constructor
    · intro _ newUser oldUser hread hold
      exact absurd hold (hnone newUser oldUser hread)
    · intro _ e next hthrow
      rw [hcall, herror] at hthrow
      cases hthrow
      rfl
  · obtain ⟨-, hrecord, hid⟩ := h.getUserById_eq_ok.mp hold
    have hnormalized := h.normalized_update hread hrecord
    -- both profiles are determined by the call and the store
    have honly : (∀ newer older, Person.ofJson juser = .ok newer →
        getUserById db newer.id = .ok older →
        UpdateIndexed db { newer with email := older.email } older) ↔
        UpdateIndexed db { newUser with email := oldUser.email } oldUser := by
      constructor
      · intro hall
        exact hall newUser oldUser hread hold
      · intro hone newer older hnewer holder
        rw [hread] at hnewer
        cases hnewer
        rw [hold] at holder
        cases holder
        exact hone
    rw [honly]
    generalize hupdated : ({ newUser with email := oldUser.email } : Person) = updated
      at happly hnormalized
    have hmail : updated.email = oldUser.email := by rw [← hupdated]
    by_cases hskills : SkillsIndexed db updated.email (removedNames updated oldUser)
    · obtain ⟨next, hnext⟩ := applyUpdate_returns h hrecord hnormalized hskills
      constructor
      · intro _
        exact .inl hskills
      · intro _ e next hthrow
        rw [hcall, happly, hnext] at hthrow
        cases hthrow
    · obtain ⟨e, next, hloop, hthrown⟩ := applyUpdate_throws hnormalized hskills
      have hunchanged := unchanged_iff hmail hnormalized hloop
      constructor
      · -- the update throws, so atomicity says that what the loop left is the store before it
        intro hatomic
        have hsame : next = db := hatomic e next ((hcall _ _).mpr (happly.trans hthrown))
        exact .inr (hunchanged.mp hsame)
      · rintro (hfound | hquiet) thrown after hthrow
        · exact absurd hfound hskills
        · rw [hcall, happly, hthrown] at hthrow
          cases hthrow
          exact hunchanged.mpr hquiet

/-- Which account operations leave the store as it was when they throw, in a reachable store:
`savePerson` always, `deletePerson` when the skills of the user are found, and `updateUser` when
the skills to remove are found or none of its writes has happened. -/
theorem account_atomicity (h : Reachable db) :
    (∀ juser forceID, Atomic db (.savePerson juser forceID)) ∧
      (∀ id, Atomic db (.deletePerson id) ↔ ∀ user, getUserById db id = .ok user →
        SkillsIndexed db user.email user.skillNames) ∧
      (∀ juser, Atomic db (.updateUser juser) ↔ ∀ newUser oldUser,
        Person.ofJson juser = .ok newUser → getUserById db newUser.id = .ok oldUser →
        UpdateIndexed db { newUser with email := oldUser.email } oldUser) :=
  ⟨atomic_savePerson db, atomic_deletePerson h.consistent, atomic_updateUser h.consistent⟩

/-- A user who registered with one skill twice. -/
def repeatedSkill : DB :=
  execAll [.savePerson (Person.sample ['a'] [['x'], ['x']] []).serializeMe (-1)]

/-- Deleting that user throws after the id was deleted. -/
theorem deletePerson_half_done :
    Reachable repeatedSkill ∧
      (exec repeatedSkill (.deletePerson 1)).1 = .error (.userNotFoundId 1) ∧
      ¬ Atomic repeatedSkill (.deletePerson 1) := by
  refine ⟨reachable_execAll _, by decide, ?_⟩
  intro hatomic
  rcases houtcome : exec repeatedSkill (.deletePerson 1) with ⟨result, next⟩
  have hthrown : result = .error (.userNotFoundId 1) := by
    have hresult : (exec repeatedSkill (.deletePerson 1)).1 = .error (.userNotFoundId 1) := by
      decide
    rwa [houtcome] at hresult
  subst hthrown
  have hid : userExists (exec repeatedSkill (.deletePerson 1)).2 1 = false := by decide
  rw [houtcome, hatomic _ _ houtcome] at hid
  exact absurd hid (by decide)

/-- A user with the same skill twice can be deleted whole only while both entries are there. -/
theorem account_atomicity_repeatedSkill :
    (Atomic repeatedSkill (.deletePerson 1) ↔
      ∀ user, getUserById repeatedSkill 1 = .ok user →
        SkillsIndexed repeatedSkill user.email user.skillNames) :=
  (account_atomicity (reachable_execAll _)).2.1 1

end TallerII.PersonManager
