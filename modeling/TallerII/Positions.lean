import TallerII.Searches

/-!
# Searching by position

The index of positions gives the users that a scan over all users gives, in every run of profile
calls that each meet `PositionSafe`. The invariant `PositionsIndexed` allows an index name to list
users that no longer have the position: the search filters them out. What must not happen is that
a user with the position is missing or listed twice, or that a listed mail has no user.
-/

namespace TallerII.PersonManager

open Manager Lib.Delimited

variable {db next : DB} {newUser oldUser user : Person} {mail title : Text}

/-- The search by position throws nothing and gives, each once, the users that have every title.
-/
def PositionSearchExact (db : DB) : Prop :=
  ∀ titles, titles ≠ [] → ∃ found users, searchByJobPosition db titles = .ok found ∧
    getAllUsers db = .ok users ∧ found.Perm (users.filter (·.hasEveryPosition titles))

/-- The records are in order, and every name of the index lists mails of users, each user with the
position once. -/
structure PositionsIndexed (db : DB) : Prop extends Ordered db where
  listed : ∀ title, lower title = title → ∃ mails,
    Lists (getUserJobPositionKey db title) mails ∧
      (∀ mail ∈ mails, ∃ user, getUserByMail db mail = .ok user) ∧
      ∀ mail user, getUserByMail db mail = .ok user → user.hasPosition title →
        mails.count mail = 1

/-! ## The search -/

/-- Titles are compared in lower case. -/
theorem hasPosition_lower (user : Person) (title : Text) :
    user.hasPosition (lower title) = user.hasPosition title := by
  simp [Person.hasPosition]

/-- The titles of a search are compared in lower case. -/
theorem hasEveryPosition_lower (user : Person) (titles : List Text) :
    user.hasEveryPosition (titles.map lower) = user.hasEveryPosition titles := by
  simp [Person.hasEveryPosition, Function.comp_def, hasPosition_lower]

/-- Which titles a user has. -/
theorem hasPosition_iff :
    user.hasPosition title = true ↔ lower title ∈ user.positionTitles.map lower := by
  simp [Person.hasPosition, Person.positionTitles]

/-- On an index in order the search is exact. -/
theorem PositionsIndexed.searchExact (h : PositionsIndexed db) : PositionSearchExact db := by
  intro titles hne
  obtain ⟨first, rest, rfl⟩ := List.exists_cons_of_ne_nil hne
  obtain ⟨mails, hlists, hmails, honce⟩ := h.listed (lower first) (lower_lower first)
  have hfirst : ∀ user : Person, user.hasEveryPosition (first :: rest) →
      user.hasPosition (lower first) := by
    intro user hall
    rw [hasPosition_lower]
    exact List.all_eq_true.mp hall first List.mem_cons_self
  obtain ⟨found, users, hfound, husers, hperm⟩ := perm_of_listed h.consistent h.keyed
    (fun user => user.hasEveryPosition (first :: rest)) hmails
    fun user huser hgood => honce user.email user huser (hfirst user hgood)
  have hfilter : (fun user : Person => user.hasEveryPosition (lower first :: rest.map lower))
      = fun user => user.hasEveryPosition (first :: rest) := by
    funext user
    exact hasEveryPosition_lower user (first :: rest)
  cases hvalue : getUserJobPositionKey db (lower first) with
  | none =>
      have hnil : mails = [] := by
        rw [hvalue] at hlists
        exact hlists.eq_none_iff.mp rfl
      subst hnil
      cases hfound
      refine ⟨[], users, ?_, husers, hperm⟩
      simp [searchByJobPosition, hvalue]
  | some contents =>
      rw [hvalue] at hlists
      refine ⟨_, users, ?_, husers, hperm⟩
      simp only [searchByJobPosition, List.map_cons, hvalue, hlists.split, hfound, hfilter]
      rfl

/-! ## Safe calls -/

/-- Registering a user keeps the index exact when the user has no position, or else a mail that
can be listed, no two titles that are equal in lower case, and no current title in lower case. -/
def RegistersPositions (user : Person) : Prop :=
  user.workHistory = [] ∨ Plain ',' user.email ∧ (user.positionTitles.map lower).Nodup ∧
    ∀ job, user.getCurrentJob = some job → lower job.positionTitle ≠ job.positionTitle

/-- A position of the new profile stays listed once: the old profile has its title in lower case,
and either the new one too or the mail is the only one listed; or the old profile does not have
it, the new one has it once, and the mail can be listed and is not yet. -/
def KeepsPosition (db : DB) (mail : Text) (newUser oldUser : Person) (title : Text) : Prop :=
  title ∈ oldUser.positionTitles ∧
      (title ∈ newUser.positionTitles ∨ Emptied db mail title) ∨
    title ∉ oldUser.positionTitles.map lower ∧
      (newUser.positionTitles.map lower).count title = 1 ∧ Plain ',' mail ∧
      ∀ contents, getUserJobPositionKey db title = some contents → mail ∉ split contents

/-- Deleting a user keeps the index exact when each name that lists the mail is a title of the
user as it is written, and lists another mail. -/
def ForgetsPositions (db : DB) (user : Person) : Prop :=
  ∀ title contents, lower title = title → getUserJobPositionKey db title = some contents →
    user.email ∈ split contents →
    title ∈ user.positionTitles ∧ withoutMail user.email contents ≠ []

/-- The calls that keep the index of positions exact. -/
def PositionSafe (db : DB) : Call → Prop
  | .savePerson juser _ => ∀ user, Person.ofJson juser = .ok user → RegistersPositions user
  | .updateUser juser => ∀ newUser oldUser, Person.ofJson juser = .ok newUser →
      getUserById db newUser.id = .ok oldUser →
      ∀ title ∈ newUser.positionTitles.map lower,
        KeepsPosition db oldUser.email newUser oldUser title
  | .deletePerson id => ∀ user, getUserById db id = .ok user → ForgetsPositions db user
  | _ => True

/-! ## Safe calls keep the index -/

/-- There is nobody to be indexed. -/
theorem PositionsIndexed.empty : PositionsIndexed ∅ := by
  refine { Ordered.empty with listed := ?_ }
  intro title _
  refine ⟨[], ?_, by simp, ?_⟩
  · have hnone : getUserJobPositionKey ∅ title = none := by
      simp [getUserJobPositionKey, indexKey]
    rw [hnone]
    exact Lists.missing
  · intro mail user hread
    simp [getUserByMail] at hread

/-- How often a new user is listed under a title in lower case. -/
theorem count_listedTitles (hsafe : RegistersPositions user) (htitle : lower title = title) :
    (listedTitles user).count title = if user.hasPosition title then 1 else 0 := by
  have hcurrent : (user.getCurrentJob.map WorkHistory.positionTitle).toList.count title = 0 := by
    cases hjob : user.getCurrentJob with
    | none => rfl
    | some job =>
        have hne : job.positionTitle ≠ title := by
          rintro rfl
          rcases hsafe with hnone | ⟨-, -, hcase⟩
          · simp [Person.getCurrentJob, hnone] at hjob
          · exact hcase job hjob htitle
        simp [hne]
  have htitles : (user.workHistory.map fun job => lower job.positionTitle)
      = user.positionTitles.map lower := by
    rw [Person.positionTitles, List.map_map]
    rfl
  have hnodup : (user.positionTitles.map lower).Nodup := by
    rcases hsafe with hnone | ⟨-, hnodup, -⟩
    · simp [Person.positionTitles, hnone]
    · exact hnodup
  rw [listedTitles, List.count_append, hcurrent, htitles, Nat.add_zero]
  split
  · rename_i hhas
    rw [hasPosition_iff, htitle] at hhas
    exact List.count_eq_one_of_mem hnodup hhas
  · rename_i hnot
    refine List.count_eq_zero_of_not_mem fun hmem => hnot ?_
    rwa [hasPosition_iff, htitle]

/-- Registering. -/
theorem PositionsIndexed.saved (h : PositionsIndexed db) {counted : DB} {id : Long}
    (hnext : Ordered (insertPerson counted (registered user id)))
    (hsafe : RegistersPositions user) (hfree : db.existsKey (key .userMail user.email) = none)
    (hcounted : ∀ family rest, counted.existsKey (key family rest)
      = db.existsKey (key family rest))
    (hview : ∀ mail, getUserByMail (insertPerson counted (registered user id)) mail
      = if user.email = mail then .ok (registered user id) else getUserByMail db mail) :
    PositionsIndexed (insertPerson counted (registered user id)) := by
  refine { hnext with listed := ?_ }
  intro title htitle
  obtain ⟨mails, hlists, hmails, honce⟩ := h.listed title htitle
  have hcount := count_listedTitles hsafe htitle
  -- a listed mail has a record, and the mail of the new user was free
  have hnew : user.email ∉ mails := by
    intro hmem
    obtain ⟨other, hother⟩ := hmails _ hmem
    exact getUserByMail_of_free hfree other hother
  have hplain : title ∈ listedTitles (registered user id) → Plain ',' user.email := by
    intro hmem
    rcases hsafe with hnone | ⟨hplain, -⟩
    · simp [listedTitles, registered, hnone, Person.getCurrentJob] at hmem
    · exact hplain
  have hbefore : Lists (getUserJobPositionKey counted title) mails := by
    rwa [getUserJobPositionKey, indexKey_congr (hcounted _ _)]
  refine ⟨_, hbefore.insertPerson_position hplain, ?_, ?_⟩
  · intro mail hmail
    rw [hview]
    split
    · exact ⟨_, rfl⟩
    · rename_i hne
      rcases List.mem_append.mp hmail with hold | hlast
      · exact hmails mail hold
      · exact absurd (List.eq_of_mem_replicate hlast).symm hne
  · intro mail other hread hhas
    rw [hview] at hread
    rw [List.count_append]
    split at hread
    · rename_i hmail
      cases hread
      subst hmail
      have hlisted : (listedTitles user).count title = 1 := by
        rw [hcount]
        exact if_pos hhas
      show mails.count user.email + (List.replicate ((listedTitles user).count title)
        user.email).count user.email = 1
      rw [List.count_eq_zero_of_not_mem hnew, List.count_replicate_self, hlisted]
    · rename_i hne
      have hzero : (List.replicate ((listedTitles (registered user id)).count title)
          user.email).count mail = 0 := by
        refine List.count_eq_zero_of_not_mem fun hmem => ?_
        exact hne (List.eq_of_mem_replicate hmem).symm
      show mails.count mail + (List.replicate ((listedTitles (registered user id)).count title)
        user.email).count mail = 1
      rw [hzero, honce mail other hread hhas]

/-- Taking a mail out of a list that also has others keeps the others. -/
theorem count_dropped_of_ne {mails : List Text} {other : Text} {dropped : Prop}
    [Decidable dropped]
    (hne : mail ≠ other) :
    (if dropped ∧ mails.filter (· ≠ mail)
      ≠ [] then mails.filter (· ≠ mail) else mails).count other
      = mails.count other := by
  split
  · exact List.count_filter (by simpa using hne.symm)
  · rfl

/-- Deleting. -/
theorem PositionsIndexed.deleted (h : PositionsIndexed db) {id : Long} (hnext : Ordered next)
    (hsafe : ForgetsPositions db user) (happly : applyDelete db id user = (.ok (), next))
    (hview : ∀ mail, getUserByMail next mail = if user.email = mail then
      .error (.userNotFoundMail mail) else getUserByMail db mail) : PositionsIndexed next := by
  refine { hnext with listed := ?_ }
  intro title htitle
  obtain ⟨mails, hlists, hmails, honce⟩ := h.listed title htitle
  obtain ⟨skilled, positioned, hskilled, hpositioned, rfl⟩ := applyDelete_eq_ok.mp happly
  have hbefore : Lists (getUserJobPositionKey skilled title) mails := by
    rwa [getUserJobPositionKey_of_skilled hskilled]
  have hafter := hbefore.deleteUserFromJobPositions htitle hpositioned
  have hsame : getUserJobPositionKey (deleteUser positioned user) title
      = getUserJobPositionKey positioned title := by
    refine indexKey_congr ?_
    simp [deleteUser]
  rw [← hsame] at hafter
  -- whatever the loop did with the name, the mail is not listed under it any more
  have hgone : user.email ∉ (if title ∈ user.positionTitles ∧ mails.filter (· ≠ user.email) ≠ []
      then mails.filter (· ≠ user.email) else mails) := by
    intro hmem
    split at hmem
    · simp at hmem
    · rename_i hkept
      cases hvalue : getUserJobPositionKey db title with
      | none =>
          rw [hvalue] at hlists
          rw [hlists.eq_none_iff.mp rfl] at hmem
          simp at hmem
      | some contents =>
          rw [hvalue] at hlists
          have hlisted : user.email ∈ split contents := by rwa [hlists.split]
          obtain ⟨hheld, hothers⟩ := hsafe title contents htitle hvalue hlisted
          exact hkept ⟨hheld, mt hlists.withoutMail_eq_nil.mpr hothers⟩
  refine ⟨_, hafter, ?_, ?_⟩
  · intro mail hmail
    have hne : user.email ≠ mail := by
      rintro rfl
      exact hgone hmail
    rw [hview, if_neg hne]
    refine hmails mail ?_
    split at hmail
    · exact List.mem_of_mem_filter hmail
    · exact hmail
  · intro mail other hread hhas
    rw [hview] at hread
    split at hread
    · cases hread
    · rename_i hne
      rw [count_dropped_of_ne hne]
      exact honce mail other hread hhas

/-- A title in lower case is added as often as the new profile has it, unless the old profile has
it as well. -/
theorem count_addedTitles :
    (addedTitles newUser oldUser).count title
      = if title ∈ oldUser.positionTitles then 0
        else (newUser.positionTitles.map lower).count title := by
  rw [addedTitles_eq, count_filter_not_mem]

/-- The titles that an update takes away. -/
theorem mem_removedTitles :
    title ∈ removedTitles newUser oldUser ↔
      title ∈ oldUser.positionTitles ∧ title ∉ newUser.positionTitles := by
  simp [removedTitles_eq]

/-- The list of a title in lower case after an update. -/
theorem Lists.applyUpdate_position {mails : List Text} {id : Long} (htitle : lower title = title)
    (hlists : Lists (getUserJobPositionKey db title) mails)
    (hplain : title ∈ addedTitles newUser oldUser → Plain ',' newUser.email)
    (happly : applyUpdate db newUser oldUser = (.ok id, next)) :
    ∃ added, added = mails ++ List.replicate ((addedTitles newUser oldUser).count title)
        newUser.email ∧
      Lists (getUserJobPositionKey next title)
        (if title ∈ removedTitles newUser oldUser ∧ added.filter (· ≠ newUser.email) ≠ []
          then added.filter (· ≠ newUser.email) else added) := by
  obtain ⟨-, skilled, positioned, hskilled, hpositioned, rfl⟩ := applyUpdate_eq_ok.mp happly
  have hkept := existsKey_position_updateSkills db newUser oldUser title
  rw [hskilled] at hkept
  have hbefore : Lists (getUserJobPositionKey skilled title) mails := by
    rwa [getUserJobPositionKey, indexKey_congr hkept]
  rw [updateWorkHistory_eq] at hpositioned
  have hadded : Lists (getUserJobPositionKey (PersonManager.addMails .userJobPosition
      newUser.email skilled (addedTitles newUser oldUser)) title) _ := hbefore.addMails hplain
  refine ⟨_, rfl, ?_⟩
  have hsame : getUserJobPositionKey (saveUpdated positioned newUser oldUser) title
      = getUserJobPositionKey positioned title :=
    indexKey_congr (existsKey_position_saveUpdated _ _ _ _)
  rw [hsame]
  exact hadded.deleteUserFromJobPositions htitle hpositioned

/-- A mail that is added under a title is plain when the title is kept safe. -/
theorem plain_of_addedTitles
    (hsafe : ∀ title ∈ newUser.positionTitles.map lower,
      KeepsPosition db mail newUser oldUser title)
    (hadded : title ∈ addedTitles newUser oldUser) : Plain ',' mail := by
  rw [addedTitles_eq] at hadded
  obtain ⟨hnew, hout⟩ := List.mem_filter.mp hadded
  rcases hsafe title hnew with ⟨hold, -⟩ | ⟨-, -, hplain, -⟩
  · exact absurd hold (of_decide_eq_true hout)
  · exact hplain

/-- A position that is kept lists the mail once after the update. -/
theorem KeepsPosition.count_own {mails added : List Text}
    (h : KeepsPosition db mail newUser oldUser title) (htitle : lower title = title)
    (hlists : Lists (getUserJobPositionKey db title) mails)
    (honce : oldUser.hasPosition title → mails.count mail = 1)
    (hadded : added = mails ++ List.replicate ((addedTitles newUser oldUser).count title) mail) :
    (if title ∈ removedTitles newUser oldUser ∧ added.filter (· ≠ mail) ≠ []
      then added.filter (· ≠ mail) else added).count mail = 1 := by
  rcases h with ⟨hold, hkeeps⟩ | ⟨hold, hone, -, hunlisted⟩
  · -- the old title in lower case: nothing is added, and nothing is taken out either
    have hhad : oldUser.hasPosition title := by
      rw [hasPosition_iff, htitle]
      exact List.mem_map.mpr ⟨title, hold, htitle⟩
    have hsame : added = mails := by
      rw [hadded, count_addedTitles, if_pos hold]
      exact List.append_nil mails
    rw [hsame]
    split
    · rename_i hdropped
      obtain ⟨hremoved, hothers⟩ := hdropped
      rcases hkeeps with hstays | ⟨contents, hvalue, hnil⟩
      · exact absurd hstays (mem_removedTitles.mp hremoved).2
      · rw [htitle] at hvalue
        rw [hvalue] at hlists
        exact absurd (hlists.withoutMail_eq_nil.mp hnil) hothers
    · exact honce hhad
  · -- a new title: the mail is added once and the name is not one to take it out of
    have hexact : title ∉ oldUser.positionTitles := by
      intro hmem
      exact hold (List.mem_map.mpr ⟨title, hmem, htitle⟩)
    have hnotin : mail ∉ mails := by
      cases hvalue : getUserJobPositionKey db title with
      | none =>
          rw [hvalue] at hlists
          rw [hlists.eq_none_iff.mp rfl]
          simp
      | some contents =>
          rw [hvalue] at hlists
          rw [← hlists.split]
          exact hunlisted contents hvalue
    have hremoved : ¬ (title ∈ removedTitles newUser oldUser ∧
        added.filter (· ≠ mail) ≠ []) := by
      rintro ⟨hremoved, -⟩
      exact hexact (mem_removedTitles.mp hremoved).1
    rw [if_neg hremoved, hadded, List.count_append, List.count_eq_zero_of_not_mem hnotin,
      List.count_replicate_self, count_addedTitles, if_neg hexact, hone]

/-- Updating. -/
theorem PositionsIndexed.updated (h : PositionsIndexed db) {id : Long} (hnext : Ordered next)
    (hmail : newUser.email = oldUser.email)
    (hrecord : getUserByMail db oldUser.email = .ok oldUser)
    (hsafe : ∀ title ∈ newUser.positionTitles.map lower,
      KeepsPosition db newUser.email newUser oldUser title)
    (happly : applyUpdate db newUser oldUser = (.ok id, next))
    (hview : ∀ mail, getUserByMail next mail = if oldUser.email = mail then
      .ok (mergeUser newUser oldUser) else getUserByMail db mail) : PositionsIndexed next := by
  refine { hnext with listed := ?_ }
  intro title htitle
  obtain ⟨mails, hlists, hmails, honce⟩ := h.listed title htitle
  obtain ⟨added, hadded, hafter⟩ :=
    hlists.applyUpdate_position htitle (plain_of_addedTitles hsafe) happly
  -- the loops add and take out the mail of the user only
  have hothers : ∀ mail, newUser.email ≠ mail → (if title ∈ removedTitles newUser oldUser ∧
      added.filter (· ≠ newUser.email) ≠ [] then added.filter (· ≠ newUser.email)
      else added).count mail = mails.count mail := by
    intro mail hne
    have hzero : (List.replicate ((addedTitles newUser oldUser).count title)
        newUser.email).count mail = 0 := by
      refine List.count_eq_zero_of_not_mem fun hmem => ?_
      exact hne (List.eq_of_mem_replicate hmem).symm
    rw [count_dropped_of_ne hne, hadded, List.count_append, hzero, Nat.add_zero]
  refine ⟨_, hafter, ?_, ?_⟩
  · intro mail hlisted
    rw [hview]
    split
    · exact ⟨_, rfl⟩
    · rename_i hne
      rw [← hmail] at hne
      have hpositive := List.one_le_count_iff.mpr hlisted
      rw [hothers mail hne] at hpositive
      exact hmails mail (List.one_le_count_iff.mp hpositive)
  · intro mail other hread hhas
    rw [hview, ← hmail] at hread
    split at hread
    · rename_i heq
      subst heq
      cases hread
      have hnew : title ∈ newUser.positionTitles.map lower := by
        have hmem := hasPosition_iff.mp hhas
        rwa [htitle] at hmem
      refine (hsafe title hnew).count_own htitle hlists (fun hhad => ?_) hadded
      rw [hmail]
      exact honce _ _ hrecord hhad
    · rename_i hne
      rw [hothers mail hne]
      exact honce mail other hread hhas

/-! ## Runs -/

/-- A safe profile call that returns keeps the index of positions exact. -/
theorem PositionsIndexed.step (h : PositionsIndexed db) {call : Call}
    (hcall : Profiles db call next) (hsafe : PositionSafe db call) : PositionsIndexed next := by
  have hnext : Ordered next := h.toOrdered.step hcall
  cases h.toOrdered.profileStep hcall with
  | saved hread hfree hcounted hview =>
      exact h.saved hnext (hsafe _ hread) hfree hcounted hview
  | @updated _ newUser oldUser _ _ hread hold hrecord _ happly hview =>
      refine h.updated hnext ?_ hrecord ?_ happly hview
      · rfl
      · exact hsafe newUser oldUser hread hold
  | deleted hread _ happly hview =>
      exact h.deleted hnext (hsafe _ hread) happly hview

/-- In every run of profile calls that return and each meet the condition, the search by position
gives what a scan over all users gives. -/
theorem searchByJobPosition_exact {calls : List Call}
    (h : Lib.Run (Lib.Guarded Profiles PositionSafe) ∅ calls db) : PositionSearchExact db := by
  have hindexed : PositionsIndexed db := by
    refine h.invariant PositionsIndexed.empty ?_
    rintro before call after hbefore ⟨hcall, hsafe⟩
    exact hbefore.step hcall hsafe
  exact hindexed.searchExact

/-- A user registers with one position. -/
def registersWorker : Call :=
  .savePerson (Person.sample ['a'] [] [['x']]).serializeMe (-1)

/-- When the only user with a position is deleted, the search for it throws. -/
theorem searchByJobPosition_after_delete :
    Lib.Run Profiles ∅ [registersWorker, .deletePerson 1]
        (execAll [registersWorker, .deletePerson 1]) ∧
      searchByJobPosition (execAll [registersWorker, .deletePerson 1]) [['x']]
        = .error (.userNotFoundMail ['a']) ∧
      ¬ PositionSearchExact (execAll [registersWorker, .deletePerson 1]) := by
  have hsearch : searchByJobPosition (execAll [registersWorker, .deletePerson 1]) [['x']]
      = .error (.userNotFoundMail ['a']) := by decide
  refine ⟨?_, hsearch, ?_⟩
  · have hfirst : Profiles ∅ registersWorker (execAll [registersWorker]) :=
      ⟨rfl, some 1, exec_execAll [] (by decide)⟩
    have hsecond : Profiles (execAll [registersWorker]) (.deletePerson 1)
        (execAll [registersWorker, .deletePerson 1]) :=
      ⟨trivial, none, exec_execAll [registersWorker] (by decide)⟩
    exact (Lib.Run.nil.snoc hfirst).snoc hsecond
  · intro hexact
    obtain ⟨found, users, hfound, -⟩ := hexact [['x']] (by simp)
    rw [hsearch] at hfound
    cases hfound

/-- Registering that user is safe. -/
theorem searchByJobPosition_exact_registered :
    PositionSearchExact (execAll [registersWorker]) := by
  have hprofile : Profiles ∅ registersWorker (execAll [registersWorker]) :=
    ⟨rfl, some 1, exec_execAll [] (by decide)⟩
  have hsafe : PositionSafe ∅ registersWorker := by
    intro user hread
    have hsample : Person.ofJson (Person.sample ['a'] [] [['x']]).serializeMe
        = .ok (Person.sample ['a'] [] [['x']]) := by decide
    rw [hsample] at hread
    cases hread
    refine .inr ⟨by decide, by decide, ?_⟩
    intro job hjob
    cases hjob
  exact searchByJobPosition_exact (Lib.Run.nil.snoc ⟨hprofile, hsafe⟩)

end TallerII.PersonManager
