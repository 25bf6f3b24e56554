import TallerII.Effects

/-!
# Updating twice with the same profile

The second of two equal updates compares the profile with itself as it was stored. The name, the
skills and the password are found to be the same, so nothing is written for them, and the record
is written over itself. Titles are stored as they were sent and looked for in lower case, so a
title with a capital is new again and the mail is added once more to its list
(`updateUser_twice_iff`).
-/

namespace TallerII.PersonManager

open Manager

variable {db next : DB} {newUser oldUser : Person} {index : Prefix} {mail : Text}
  {names : List Text}

/-! ## What adding changes -/

/-- The length of the list under a name, with room for the name itself. -/
def weight (index : Prefix) (db : DB) (name : Text) : Nat :=
  match indexKey index db name with
  | none => 0
  | some mails => mails.length + 1

/-- Adding a mail makes an entry no lighter, and its own one heavier. -/
theorem weight_addMail (index : Prefix) (mail : Text) (db : DB) (first name : Text) :
    weight index db name ≤ weight index (addMail index mail db first) name ∧
      (first = name → weight index db name
        < weight index (addMail index mail db first) name) := by
  by_cases hname : first = name
  · subst hname
    have hgrows : weight index db first < weight index (addMail index mail db first) first := by
      rw [weight, weight, indexKey_addMail, if_pos rfl]
      cases indexKey index db first with
      | none => simp
      | some mails =>
          simp only [withMail, List.length_append, List.length_singleton]
          omega
    exact ⟨hgrows.le, fun _ => hgrows⟩
  · have hsame : weight index (addMail index mail db first) name = weight index db name := by
      rw [weight, indexKey_addMail, if_neg hname, weight]
    exact ⟨hsame.ge, fun heq => absurd heq hname⟩

/-- No list gets shorter when mails are added. -/
theorem weight_addMails (index : Prefix) (mail : Text) (db : DB) (names : List Text)
    (name : Text) :
    weight index db name ≤ weight index (addMails index mail db names) name := by
  induction names generalizing db with
  | nil => exact le_refl _
  | cons first rest ih => exact (weight_addMail index mail db first name).1.trans (ih _)

/-- Adding mails leaves an index as it was only when there is no name to add one to. -/
theorem eq_nil_of_addMails
    (h : ∀ name, indexKey index (addMails index mail db names) name = indexKey index db name) :
    names = [] := by
  cases names with
  | nil => rfl
  | cons first rest =>
      have hfirst := (weight_addMail index mail db first first).2 rfl
      have hrest := weight_addMails index mail (addMail index mail db first) rest first
      have hsame : weight index (addMails index mail (addMail index mail db first) rest) first
          = weight index db first := by
        have hvalue : indexKey index
            (addMails index mail (addMail index mail db first) rest) first
            = indexKey index db first := h first
        rw [weight, weight, hvalue]
      omega

/-! ## The second update -/

/-- A profile adds nothing over one with the same names. -/
theorem filter_not_mem_self (names : List Text) : names.filter (· ∉ names) = [] := by
  simp

/-- Every title of a profile is, in lower case, a title of the profile. -/
def TitlesClosed (user : Person) : Prop :=
  ∀ job ∈ user.workHistory, ∃ other ∈ user.workHistory,
    other.positionTitle = lower job.positionTitle

/-- The same positions: none is added when the titles are closed. -/
theorem addedTitles_again (hpositions : oldUser.workHistory = newUser.workHistory) :
    addedTitles newUser oldUser = [] ↔ TitlesClosed newUser := by
  rw [addedTitles, List.map_eq_nil_iff, addedPositions, List.filter_eq_nil_iff, hpositions]
  refine forall_congr' fun job => forall_congr' fun hjob => ?_
  simp

/-- The record that an update stores is the one that it stores over that record again. -/
theorem mergeUser_again (newUser oldUser : Person) :
    mergeUser newUser (mergeUser newUser oldUser) = mergeUser newUser oldUser := by
  by_cases hpassword : newUser.password = [] <;> by_cases hlocation : newUser.location.isEmpty <;>
    simp [mergeUser, hpassword, hlocation]

/-- No password is written again. -/
theorem saveUpdated_again (db : DB) (newUser oldUser : Person) :
    saveUpdated db newUser (mergeUser newUser oldUser)
      = saveUser db (mergeUser newUser oldUser) := by
  rw [saveUpdated, mergeUser_again]
  by_cases hpassword : newUser.password = []
  · rw [if_pos hpassword]
  · have hsame : (mergeUser newUser oldUser).password = newUser.password := if_neg hpassword
    rw [if_neg hpassword, updatePassword, if_neg (not_not.mpr hsame)]

/-- The second update adds the mail to the titles that are new again, and saves the record. -/
theorem applyUpdate_again (hnormalized : newUser.Normalized) (db : DB) (oldUser : Person) :
    applyUpdate db newUser (mergeUser newUser oldUser)
      = (.ok newUser.id, saveUser
          (addMails .userJobPosition newUser.email db
            (addedTitles newUser (mergeUser newUser oldUser)))
          (mergeUser newUser oldUser)) := by
  have hname : updateName db newUser (mergeUser newUser oldUser) = db := by
    have hsame : (mergeUser newUser oldUser).getFullName = newUser.getFullName := rfl
    rw [updateName, if_neg (not_not.mpr hsame)]
  have hskills : updateSkills db newUser (mergeUser newUser oldUser) = (.ok (), db) := by
    have hnames : (mergeUser newUser oldUser).skillNames = newUser.skillNames := rfl
    rw [updateSkills_eq, addedNames_eq hnormalized, removedNames_eq, hnames, filter_not_mem_self]
    rfl
  have hpositions : updateWorkHistory db newUser (mergeUser newUser oldUser)
      = (.ok (), addMails .userJobPosition newUser.email db
          (addedTitles newUser (mergeUser newUser oldUser))) := by
    have htitles : (mergeUser newUser oldUser).positionTitles = newUser.positionTitles := rfl
    rw [updateWorkHistory_eq, removedTitles_eq, htitles, filter_not_mem_self]
    rfl
  exact applyUpdate_eq_ok.mpr ⟨rfl, db, _, by rw [hname, hskills], hpositions,
    (saveUpdated_again _ _ _).symm⟩

/-- After an update that returned, the same update adds the mail to the titles that are new again
and writes the record over itself. -/
theorem updateUser_again (h : Consistent db) {juser : Json} {id : Long}
    (hupdate : updateUser db juser = (.ok id, next)) :
    ∃ newUser oldUser, Person.ofJson juser = .ok newUser ∧
      next.existsKey (key .userMail oldUser.email)
        = some (.json (updated newUser oldUser).serializeMe) ∧
      updateUser next juser = (.ok newUser.id, saveUser
        (addMails .userJobPosition oldUser.email next
          (addedTitles newUser (updated newUser oldUser)))
        (updated newUser oldUser)) := by
  obtain ⟨newUser, oldUser, hread, hold, happly⟩ := updateUser_eq_ok hupdate
  obtain ⟨hmail, hrecord, hid⟩ := h.getUserById_eq_ok.mp hold
  have hkept : ({ newUser with email := oldUser.email } : Person).email = oldUser.email := rfl
  have hafter : ∀ family rest, family ≠ .userSkill ∧ family ≠ .userJobPosition ∧
      family ≠ .userName →
      next.existsKey (key family rest) = _ := fun family rest hfamily =>
    (existsKey_applyUpdate_ok hkept happly (outside_key hfamily rest)).trans
      (existsKey_saveUpdated hkept _)
  have hstored : next.existsKey (key .userMail oldUser.email)
      = some (.json (updated newUser oldUser).serializeMe) := by
    rw [hafter _ _ (by decide), if_pos rfl]
    rfl
  have hfound : getUserById next newUser.id = .ok (updated newUser oldUser) := by
    rw [getUserById, hafter _ _ (by decide), if_neg (by simp), if_neg (by simp), hmail]
    exact getUserByMail_of_stored (h.normalized_updated hread hrecord) hstored
  refine ⟨newUser, oldUser, hread, hstored, ?_⟩
  calc updateUser next juser
      = applyUpdate next { newUser with email := oldUser.email } (updated newUser oldUser) := by
        rw [updateUser, hread]
        simp only [hfound]
        rfl
    _ = _ := applyUpdate_again (h.normalized_update hread hrecord) next oldUser

/-- In every reachable store, an update that returned can be repeated, and leaves the store as it
is exactly when every title of the profile is, in lower case, a title of the profile. -/
theorem updateUser_twice_iff (h : Reachable db) {juser : Json} {id : Long}
    (hupdate : updateUser db juser = (.ok id, next)) :
    (∃ result, updateUser next juser = (.ok result, next)) ↔
      ∀ newUser, Person.ofJson juser = .ok newUser → TitlesClosed newUser := by
  obtain ⟨newUser, oldUser, hread, hstored, hagain⟩ := updateUser_again h.consistent hupdate
  have hclosed : addedTitles newUser (updated newUser oldUser) = [] ↔ TitlesClosed newUser :=
    addedTitles_again rfl
  simp only [hread, Except.ok.injEq, forall_eq', ← hclosed, hagain, Prod.mk.injEq,
    exists_eq_left']
  constructor
  · intro hsame
    refine @eq_nil_of_addMails next .userJobPosition oldUser.email _ fun name => ?_
    have hvalue := congrArg (fun db => indexKey .userJobPosition db name) hsame
    rw [← hvalue]
    simp [saveUser]
  · intro hnone
    rw [hnone]
    exact DB.putKey_same hstored

/-- The profile of the first user with one title. -/
def titled (positionTitle : Text) : Json :=
  ({ Person.sample ['a'] [] [positionTitle] with id := 1 } : Person).serializeMe

/-- That user registered without a title. -/
def untitled : DB :=
  execAll [.savePerson (Person.sample ['a'] [] []).serializeMe (-1)]

/-- The same update twice lists the user twice under a title with a capital. -/
theorem titled_twice :
    Reachable untitled ∧ (updateUser untitled (titled ['D'])).1 = .ok 1 ∧
      getUserJobPositionKey (updateUser untitled (titled ['D'])).2 ['d'] = some ['a'] ∧
      getUserJobPositionKey (updateUser (updateUser untitled (titled ['D'])).2 (titled ['D'])).2
        ['d']
        = some "a,a".toList ∧
      ¬ ∃ result, updateUser (updateUser untitled (titled ['D'])).2 (titled ['D'])
        = (.ok result, (updateUser untitled (titled ['D'])).2) := by
  have honce : getUserJobPositionKey (updateUser untitled (titled ['D'])).2 ['d']
      = some ['a'] := by
    decide
  have htwice : getUserJobPositionKey
      (updateUser (updateUser untitled (titled ['D'])).2 (titled ['D'])).2 ['d']
        = some "a,a".toList := by decide
  refine ⟨reachable_execAll _, by decide, honce, htwice, ?_⟩
  rintro ⟨result, hsame⟩
  rw [hsame, honce] at htwice
  revert htwice
  decide

/-- In small letters the second update changes nothing. -/
theorem titled_small :
    ∃ result, updateUser (updateUser untitled (titled ['d'])).2 (titled ['d'])
      = (.ok result, (updateUser untitled (titled ['d'])).2) := by
  have hupdate : updateUser untitled (titled ['d'])
      = (.ok 1, (updateUser untitled (titled ['d'])).2) := by
    have hresult : (updateUser untitled (titled ['d'])).1 = .ok 1 := by decide
    exact Prod.ext hresult rfl
  refine (updateUser_twice_iff (reachable_execAll
    [.savePerson (Person.sample ['a'] [] []).serializeMe (-1)]) hupdate).mpr ?_
  intro newUser hread
  have hprofile : Person.ofJson (titled ['d'])
      = .ok { Person.sample ['a'] [] [['d']] with id := 1 } := by decide
  rw [hprofile] at hread
  cases hread
  intro job hjob
  exact ⟨job, hjob, by rw [List.mem_singleton.mp hjob]; decide⟩

end TallerII.PersonManager
