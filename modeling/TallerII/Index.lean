import TallerII.PersonManager

/-!
# The indices of skills and positions

What adding a mail to an index and taking it out again does to the store. `Lists` relates the
value of an index name to the list of mails it stands for: on such values adding appends and
removing filters. The last section says when the loop over removed skills returns, for any stored
values.
-/

namespace TallerII.PersonManager

open Manager Lib.Delimited

variable {db next : DB} {index : Prefix} {mail name : Text} {names : List Text}

/-! ## Lists of mails -/

/-- The value of an index name lists the mails: it is missing for no mail, and else joins them. -/
def Lists (value : Option Text) (mails : List Text) : Prop :=
  value = (if mails = [] then none else some (encode ',' mails)) ∧
    ∀ mail ∈ mails, Plain ',' mail

namespace Lists

variable {value : Option Text} {mails : List Text}

/-- No entry lists nobody. -/
theorem missing : Lists none [] :=
  ⟨rfl, by simp⟩

/-- What an entry holds are the mails with commas between them. -/
theorem of_some {contents : Text} (h : Lists (some contents) mails) :
    contents = encode ',' mails ∧ mails ≠ [] := by
  obtain ⟨hvalue, -⟩ := h
  by_cases hmails : mails = []
  · simp [hmails] at hvalue
  · rw [if_neg hmails] at hvalue
    exact ⟨Option.some.inj hvalue, hmails⟩

/-- There is no entry exactly when nobody is listed. -/
theorem eq_none_iff (h : Lists value mails) : value = none ↔ mails = [] := by
  rw [h.1]
  split <;> simp_all

/-- Splitting a value gives the mails that it lists. -/
theorem split {contents : Text} (h : Lists (some contents) mails) :
    PersonManager.split contents = mails := by
  obtain ⟨rfl, -⟩ := h.of_some
  exact getlines_encode h.2

/-- The listed mails are determined by the value. -/
theorem unique {others : List Text} (h : Lists value mails) (hothers : Lists value others) :
    mails = others := by
  cases value with
  | none => rw [h.eq_none_iff.mp rfl, hothers.eq_none_iff.mp rfl]
  | some contents => rw [← h.split, ← hothers.split]

/-- Adding a mail appends it. -/
theorem withMail (h : Lists value mails) (hmail : Plain ',' mail) :
    Lists (some (withMail mail value)) (mails ++ [mail]) := by
  have hplain : ∀ other ∈ mails ++ [mail], Plain ',' other := by
    intro other hother
    rcases List.mem_append.mp hother with hold | hnew
    · exact h.2 other hold
    · rwa [List.mem_singleton.mp hnew]
  refine ⟨?_, hplain⟩
  rw [if_neg (by simp)]
  cases value with
  | none =>
      rw [h.eq_none_iff.mp rfl]
      simp [PersonManager.withMail]
  | some contents =>
      obtain ⟨rfl, hne⟩ := h.of_some
      rw [encode_concat hne]
      simp [PersonManager.withMail]

/-- Leaving a mail out joins the other mails. -/
theorem withoutMail {contents : Text} (h : Lists (some contents) mails) :
    withoutMail mail contents = encode ',' (mails.filter (· ≠ mail)) := by
  obtain ⟨rfl, -⟩ := h.of_some
  exact removePiece_encode mail h.2

/-- Nothing remains iff the mail was the only one. -/
theorem withoutMail_eq_nil {contents : Text} (h : Lists (some contents) mails) :
    PersonManager.withoutMail mail contents = [] ↔ mails.filter (· ≠ mail) = [] := by
  rw [h.withoutMail]
  constructor
  · intro hnil
    by_contra hne
    refine encode_ne_nil hne (fun other hother => ?_) hnil
    exact h.2 other (List.mem_of_mem_filter hother)
  · intro hnil
    rw [hnil]
    rfl

end Lists

/-- The value of an index name once a mail is left out of it. -/
def dropMail (mail : Text) : Option Text → Option Text
  | none => none
  | some contents =>
    if withoutMail mail contents = [] then none else some (withoutMail mail contents)

/-- An entry without a mail lists the others. -/
theorem Lists.dropMail {value : Option Text} {mails : List Text} (h : Lists value mails) :
    Lists (dropMail mail value) (mails.filter (· ≠ mail)) := by
  cases value with
  | none =>
      rw [h.eq_none_iff.mp rfl]
      exact Lists.missing
  | some contents =>
      refine ⟨?_, fun other hother => h.2 other (List.mem_of_mem_filter hother)⟩
      rw [PersonManager.dropMail, h.withoutMail, ← h.withoutMail]
      by_cases hnil : mails.filter (· ≠ mail) = []
      · rw [if_pos (h.withoutMail_eq_nil.mpr hnil), if_pos hnil]
      · rw [if_neg (mt h.withoutMail_eq_nil.mp hnil), if_neg hnil]

/-! ## Adding a mail -/

/-- Adds a mail under a name: the write of `saveSkill` and of `savePosition`. -/
def addMail (index : Prefix) (mail : Text) (db : DB) (name : Text) : DB :=
  db.putKey (key index name) (.text (withMail mail (indexKey index db name)))

/-- Adds a mail under each of the names. -/
def addMails (index : Prefix) (mail : Text) (db : DB) (names : List Text) : DB :=
  names.foldl (addMail index mail) db

/-- Saving skills adds the mail to their entries. -/
theorem foldl_saveSkill (skills : List Skill) (db : DB) (mail : Text) :
    skills.foldl (fun db skill => saveSkill db skill mail) db
      = addMails .userSkill mail db (skills.map fun skill => lower skill.name) := by
  rw [addMails, List.foldl_map]
  rfl

/-- Saving positions adds the mail to their entries. -/
theorem foldl_savePosition (positions : List WorkHistory) (db : DB) (mail : Text) :
    positions.foldl (fun db job => savePosition db (lower job.positionTitle) mail) db
      = addMails .userJobPosition mail db
        (positions.map fun job => lower job.positionTitle) := by
  rw [addMails, List.foldl_map]
  rfl

/-- A key that is put is an entry of the index when it is one of its keys. -/
@[simp] theorem indexKey_putKey (index : Prefix) (db : DB) (other : Text) (value : Entry)
    (name : Text) :
    indexKey index (db.putKey other value) name
      = if other = key index name then some value.asText else indexKey index db name := by
  rw [indexKey, DB.existsKey_putKey]
  split <;> rfl

/-- A key that is deleted is no entry any more. -/
@[simp] theorem indexKey_deleteKey (index : Prefix) (db : DB) (other name : Text) :
    indexKey index (db.deleteKey other) name
      = if other = key index name then none else indexKey index db name := by
  rw [indexKey, DB.existsKey_deleteKey]
  split <;> rfl

/-- A mail is added to one entry alone. -/
theorem indexKey_addMail (index : Prefix) (mail : Text) (db : DB) (name other : Text) :
    indexKey index (addMail index mail db name) other
      = if name = other then some (withMail mail (indexKey index db name))
        else indexKey index db other := by
  simp [addMail, Entry.asText]

/-- Adding mails writes in its own index only. -/
@[simp] theorem existsKey_addMails {other : Text} (h : ∀ rest, other ≠ key index rest) :
    (addMails index mail db names).existsKey other = db.existsKey other := by
  induction names generalizing db with
  | nil => rfl
  | cons first rest ih =>
      have hstep : (addMail index mail db first).existsKey other = db.existsKey other := by
        rw [addMail, DB.existsKey_putKey, if_neg (h first).symm]
      exact (@ih (addMail index mail db first)).trans hstep

/-- Adding a mail writes keys of the index alone. -/
@[simp] theorem existsKey_addMail {other : Text} (h : ∀ rest, other ≠ key index rest) :
    (addMail index mail db name).existsKey other = db.existsKey other :=
  @existsKey_addMails _ _ _ [name] _ h

/-- A name that gets no mail keeps its value. -/
theorem indexKey_addMails_of_not_mem (h : name ∉ names) :
    indexKey index (addMails index mail db names) name = indexKey index db name := by
  induction names generalizing db with
  | nil => rfl
  | cons first rest ih =>
      have hfirst : ¬ first = name := fun heq => h (heq ▸ List.mem_cons_self)
      have hrest : name ∉ rest := fun hmem => h (List.mem_cons_of_mem _ hmem)
      calc indexKey index (addMails index mail (addMail index mail db first) rest) name
          = indexKey index (addMail index mail db first) name := ih hrest
        _ = indexKey index db name := by rw [indexKey_addMail, if_neg hfirst]

/-- Adding keeps every name that was there, and makes those it adds to. -/
theorem isSome_indexKey_addMails
    (h : (indexKey index db name).isSome ∨ name ∈ names) :
    (indexKey index (addMails index mail db names) name).isSome := by
  induction names generalizing db with
  | nil => simpa [addMails] using h
  | cons first rest ih =>
      refine @ih (addMail index mail db first) ?_
      rw [indexKey_addMail]
      by_cases hfirst : first = name
      · simp [hfirst]
      · rw [if_neg hfirst]
        refine h.imp_right fun hmem => ?_
        exact (List.mem_cons.mp hmem).resolve_left fun heq => hfirst heq.symm

/-- The lists of an index once a mail is added under each of the names. -/
theorem Lists.addMails {mails : List Text} (h : Lists (indexKey index db name) mails)
    (hmail : name ∈ names → Plain ',' mail) :
    Lists (indexKey index (addMails index mail db names) name)
      (mails ++ List.replicate (names.count name) mail) := by
  induction names generalizing db mails with
  | nil => simpa [PersonManager.addMails] using h
  | cons first rest ih =>
      have hrest : name ∈ rest → Plain ',' mail := fun hmem =>
        hmail (List.mem_cons_of_mem _ hmem)
      by_cases hfirst : first = name
      · subst hfirst
        have hone : Lists (indexKey index (addMail index mail db first) first)
            (mails ++ [mail]) := by
          rw [indexKey_addMail, if_pos rfl]
          exact h.withMail (hmail List.mem_cons_self)
        have hall := ih hone hrest
        rw [List.append_assoc] at hall
        rw [List.count_cons_self, List.replicate_succ]
        exact hall
      · have hone : Lists (indexKey index (addMail index mail db first) name) mails := by
          rw [indexKey_addMail, if_neg hfirst]
          exact h
        rw [List.count_cons_of_ne hfirst]
        exact ih hone hrest

/-! ## Loops that may throw -/

/-- A loop over mapped items is a loop whose body maps them. -/
theorem forEach_map {α β : Type} (body : DB → β → Except Exn Unit × DB) (f : α → β) (db : DB)
    (items : List α) :
    forEach (fun db item => body db (f item)) db items = forEach body db (items.map f) := by
  induction items generalizing db with
  | nil => rfl
  | cons item items ih =>
      simp only [forEach, List.map_cons]
      split
      · exact ih _
      · rfl

/-- A loop over a list that is not empty returns iff its first round and then the others do. -/
theorem forEach_cons_eq_ok {α : Type} {body : DB → α → Except Exn Unit × DB} {item : α}
    {items : List α} :
    forEach body db (item :: items) = (.ok (), next) ↔
      ∃ middle, body db item = (.ok (), middle) ∧ forEach body middle items = (.ok (), next) := by
  rcases hbody : body db item with ⟨result, middle⟩
  cases result with
  | error e => simp [forEach, hbody]
  | ok _ => simp [forEach, hbody]

/-- What every round preserves, whether it returns or throws, the loop preserves. -/
theorem forEach_preserves {α : Type} {body : DB → α → Except Exn Unit × DB} {items : List α}
    (Inv : DB → Prop) (hround : ∀ item ∈ items, ∀ before, Inv before → Inv (body before item).2)
    (hdb : Inv db) : Inv (forEach body db items).2 := by
  induction items generalizing db with
  | nil => exact hdb
  | cons item items ih =>
      have hfirst : Inv (body db item).2 := hround item List.mem_cons_self db hdb
      rcases hbody : body db item with ⟨result, middle⟩
      rw [hbody] at hfirst
      cases result with
      | error e =>
          simp only [forEach, hbody]
          exact hfirst
      | ok _ =>
          simp only [forEach, hbody]
          exact ih (fun other hother => hround other (List.mem_cons_of_mem _ hother)) hfirst

/-! ## Taking a mail out of a skill -/

/-- Writes or deletes a key. -/
def setKey (db : DB) (key : Text) : Option Text → DB
  | some contents => db.putKey key (.text contents)
  | none => db.deleteKey key

/-- Setting a key leaves the others. -/
@[simp] theorem existsKey_setKey (db : DB) (key other : Text) (value : Option Text) :
    (setKey db key value).existsKey other
      = if key = other then value.map .text else db.existsKey other := by
  cases value <;> simp [setKey]

/-- The entries after setting a key. -/
@[simp] theorem indexKey_setKey (db : DB) (other : Text) (value : Option Text) :
    indexKey index (setKey db other value) name
      = if other = key index name then value else indexKey index db name := by
  cases value <;> simp [setKey, Entry.asText]

/-- Without an entry the operation throws. -/
theorem deleteUserFromSkill_missing (h : getUserSkillKey db name = none) :
    deleteUserFromSkill db name mail = (.error .badImplementation, db) := by
  rw [deleteUserFromSkill, h]

/-- With one the mail is taken out of it. -/
theorem deleteUserFromSkill_found (h : (getUserSkillKey db name).isSome) :
    deleteUserFromSkill db name mail
      = (.ok (), setKey db (key .userSkill name) (dropMail mail (getUserSkillKey db name))) := by
  obtain ⟨contents, hcontents⟩ := Option.isSome_iff_exists.mp h
  rw [deleteUserFromSkill, hcontents]
  simp only [dropMail]
  split <;> rfl

/-- The operation succeeds exactly when there is an entry. -/
theorem deleteUserFromSkill_eq_ok :
    deleteUserFromSkill db name mail = (.ok (), next) ↔ (getUserSkillKey db name).isSome ∧
      next = setKey db (key .userSkill name) (dropMail mail (getUserSkillKey db name)) := by
  by_cases h : (getUserSkillKey db name).isSome
  · rw [deleteUserFromSkill_found h]
    simp [h, eq_comm]
  · rw [deleteUserFromSkill_missing (by simpa using h)]
    simp [h]

/-- The loop that takes a mail out of skills. -/
def deleteUserFromSkills (mail : Text) (db : DB) (names : List Text) : Except Exn Unit × DB :=
  forEach (fun db name => deleteUserFromSkill db name mail) db names

/-- The store after taking a mail out of a skill, also when the skill is missing. -/
theorem deleteUserFromSkill_snd (db : DB) (name mail : Text) :
    (deleteUserFromSkill db name mail).2
      = setKey db (key .userSkill name) (dropMail mail (getUserSkillKey db name)) := by
  by_cases h : (getUserSkillKey db name).isSome
  · rw [deleteUserFromSkill_found h]
  · have hnone : getUserSkillKey db name = none := by simpa using h
    have hmissing : db.existsKey (key .userSkill name) = none := by
      simpa [getUserSkillKey, indexKey] using hnone
    rw [deleteUserFromSkill_missing hnone, hnone]
    exact (DB.deleteKey_missing hmissing).symm

/-- The lists under skills as a codec: what is stored for a list of mails is split into the same
mails, saving a mail appends it, and taking one out leaves the others in their order. The key is
there exactly when there are mails; without it there is nothing to take out and the call throws.
-/
theorem skillList_codec {mails : List Text} (hmails : ∀ listed ∈ mails, Plain ',' listed)
    (hstored : getUserSkillKey db name = if mails = [] then none else some (encode ',' mails))
    (mail : Text) :
    split (encode ',' mails) = mails ∧
    (∀ skill : Skill, lower skill.name = name → saveSkill db skill mail
      = db.putKey (key .userSkill name) (.text (encode ',' (mails ++ [mail])))) ∧
    deleteUserFromSkill db name mail =
      (if mails = [] then (.error .badImplementation, db)
      else (.ok (),
        if mails.filter (· ≠ mail) = [] then db.deleteKey (key .userSkill name)
        else db.putKey (key .userSkill name) (.text (encode ',' (mails.filter (· ≠ mail)))))) ∧
    ((deleteUserFromSkill db name mail).2.existsKey (key .userSkill name) = none ↔
      mails.filter (· ≠ mail) = []) := by
  have hlists : Lists (getUserSkillKey db name) mails := ⟨hstored, hmails⟩
  have hdropped : Lists (dropMail mail (getUserSkillKey db name)) (mails.filter (· ≠ mail)) :=
    hlists.dropMail
  refine ⟨getlines_encode hmails, ?_, ?_, ?_⟩
  · intro skill hskill
    rw [saveSkill, hskill, hstored]
    by_cases hnone : mails = []
    · rw [if_pos hnone, hnone, List.nil_append, encode_singleton]
      rfl
    · rw [if_neg hnone, encode_concat hnone]
      simp [withMail, saveUserSkillKey]
  · by_cases hnone : mails = []
    · rw [if_pos hnone] at hstored ⊢
      exact deleteUserFromSkill_missing hstored
    · rw [if_neg hnone] at hstored ⊢
      rw [deleteUserFromSkill_found (by rw [hstored]; rfl), hdropped.1]
      split
      · rfl
      · rfl
  · rw [deleteUserFromSkill_snd, existsKey_setKey, if_pos rfl, Option.map_eq_none_iff, hdropped.1]
    by_cases hnil : mails.filter (· ≠ mail) = []
    · rw [if_pos hnil]
      exact ⟨fun _ => hnil, fun _ => rfl⟩
    · rw [if_neg hnil]
      exact ⟨fun h => (Option.some_ne_none _ h).elim, fun h => absurd h hnil⟩

/-- A skill under which two users are listed, one of them twice. -/
def sharedSkill : DB :=
  (∅ : DB).putKey (key .userSkill ['c']) (.text "ana,beto,ana".toList)

/-- One of two mails is taken out of an entry, and the other one stays. -/
theorem skillList_codec_sharedSkill :
    deleteUserFromSkill sharedSkill ['c'] "ana".toList
      = (.ok (), sharedSkill.putKey (key .userSkill ['c']) (.text "beto".toList)) := by
  have hmails : ∀ listed ∈ ["ana".toList, "beto".toList, "ana".toList], Plain ',' listed := by
    decide
  have hstored : getUserSkillKey sharedSkill ['c'] = some "ana,beto,ana".toList := by
    simp [getUserSkillKey, sharedSkill, Entry.asText]
  obtain ⟨-, -, hdeleted, -⟩ := skillList_codec hmails hstored "ana".toList
  rw [hdeleted]
  rfl

/-- Taking a user out of the skills writes their entries alone. -/
@[simp] theorem existsKey_deleteUserFromSkills {other : Text}
    (hother : ∀ rest, other ≠ key .userSkill rest) :
    (deleteUserFromSkills mail db names).2.existsKey other = db.existsKey other := by
  refine forEach_preserves (fun now => now.existsKey other = db.existsKey other) ?_ rfl
  intro skill _ before hbefore
  show (deleteUserFromSkill before skill mail).2.existsKey other = db.existsKey other
  rw [deleteUserFromSkill_snd, existsKey_setKey, if_neg (hother skill).symm, hbefore]

/-- The lists of skills after the loop: the mail is filtered out of the named ones. -/
theorem Lists.deleteUserFromSkills {mails : List Text}
    (hlists : Lists (getUserSkillKey db name) mails)
    (h : deleteUserFromSkills mail db names = (.ok (), next)) :
    Lists (getUserSkillKey next name)
      (if name ∈ names then mails.filter (· ≠ mail) else mails) := by
  induction names generalizing db mails with
  | nil =>
      cases h
      simpa using hlists
  | cons first rest ih =>
      obtain ⟨middle, hfirst, hrest⟩ := forEach_cons_eq_ok.mp h
      obtain ⟨-, rfl⟩ := deleteUserFromSkill_eq_ok.mp hfirst
      by_cases heq : first = name
      · subst heq
        have hdrop : Lists (getUserSkillKey (setKey db (key .userSkill first)
            (PersonManager.dropMail mail (getUserSkillKey db first))) first)
            (mails.filter (· ≠ mail)) := by
          rw [getUserSkillKey, indexKey_setKey, if_pos rfl]
          exact hlists.dropMail
        have hall := ih hdrop hrest
        rw [if_pos List.mem_cons_self]
        simpa using hall
      · have hkeep : Lists (getUserSkillKey (setKey db (key .userSkill first)
            (PersonManager.dropMail mail (getUserSkillKey db first))) name) mails := by
          rw [getUserSkillKey, indexKey_setKey, if_neg (by simpa using heq)]
          exact hlists
        have hall := ih hkeep hrest
        simpa [Ne.symm heq] using hall

/-! ## Taking a mail out of a position -/

/-- What `deleteUserFromJobPosition` leaves when it found the given contents. -/
def dropPosition (mail : Text) (db : DB) (title contents : Text) : DB :=
  if withoutMail mail contents = [] then db.deleteKey (key .userSkill title)
  else db.putKey (key .userJobPosition title) (.text (withoutMail mail contents))

/-- The mail is the only one under the position, which `deleteUserFromJobPosition` then takes for
the name of a skill. -/
def Emptied (db : DB) (mail title : Text) : Prop :=
  ∃ contents, getUserJobPositionKey db (lower title) = some contents ∧
    withoutMail mail contents = []

/-- Without an entry the operation throws. -/
theorem deleteUserFromJobPosition_missing (h : getUserJobPositionKey db (lower name) = none) :
    deleteUserFromJobPosition db name mail = (.error .badImplementation, db) := by
  rw [deleteUserFromJobPosition, h]

/-- With one the mail is taken out of it. -/
theorem deleteUserFromJobPosition_found {contents : Text}
    (h : getUserJobPositionKey db (lower name) = some contents) :
    deleteUserFromJobPosition db name mail = (.ok (), dropPosition mail db name contents) := by
  rw [deleteUserFromJobPosition, h]
  simp only [dropPosition]
  split <;> rfl

/-- The operation succeeds exactly when there is an entry. -/
theorem deleteUserFromJobPosition_eq_ok :
    deleteUserFromJobPosition db name mail = (.ok (), next) ↔
      ∃ contents, getUserJobPositionKey db (lower name) = some contents ∧
        next = dropPosition mail db name contents := by
  cases h : getUserJobPositionKey db (lower name) with
  | none => simp [deleteUserFromJobPosition_missing h]
  | some contents =>
      rw [deleteUserFromJobPosition_found h]
      simp [eq_comm]

/-- The loop that takes a mail out of positions. -/
def deleteUserFromJobPositions (mail : Text) (db : DB) (titles : List Text) :
    Except Exn Unit × DB :=
  forEach (fun db title => deleteUserFromJobPosition db title mail) db titles

/-- Taking a mail out of a position writes keys of the two indexes alone. -/
theorem existsKey_dropPosition {title contents other : Text}
    (hskill : ∀ rest, other ≠ key .userSkill rest)
    (hposition : ∀ rest, other ≠ key .userJobPosition rest) :
    (dropPosition mail db title contents).existsKey other = db.existsKey other := by
  unfold dropPosition
  split
  · rw [DB.existsKey_deleteKey, if_neg (hskill title).symm]
  · rw [DB.existsKey_putKey, if_neg (hposition title).symm]

/-- The store after taking a mail out of a position: the old one, or the one that the contents
found lead to. -/
theorem deleteUserFromJobPosition_snd (db : DB) (title mail : Text) :
    (deleteUserFromJobPosition db title mail).2 = db ∨
      ∃ contents, getUserJobPositionKey db (lower title) = some contents ∧
        (deleteUserFromJobPosition db title mail).2 = dropPosition mail db title contents := by
  cases h : getUserJobPositionKey db (lower title) with
  | none => exact .inl (by rw [deleteUserFromJobPosition_missing h])
  | some contents => exact .inr ⟨contents, rfl, by rw [deleteUserFromJobPosition_found h]⟩

/-- Taking a user out of the positions writes keys of the two indexes alone. -/
@[simp] theorem existsKey_deleteUserFromJobPositions {other : Text}
    (hskill : ∀ rest, other ≠ key .userSkill rest)
    (hposition : ∀ rest, other ≠ key .userJobPosition rest) :
    (deleteUserFromJobPositions mail db names).2.existsKey other = db.existsKey other := by
  refine forEach_preserves (fun now => now.existsKey other = db.existsKey other) ?_ rfl
  intro title _ before hbefore
  show (deleteUserFromJobPosition before title mail).2.existsKey other = db.existsKey other
  rcases deleteUserFromJobPosition_snd before title mail with hsame | ⟨contents, -, hdrop⟩
  · rw [hsame, hbefore]
  · rw [hdrop, existsKey_dropPosition hskill hposition, hbefore]

/-- The value of a position after a mail was taken out of a title. -/
theorem getUserJobPositionKey_dropPosition (mail : Text) (db : DB) (title contents other : Text) :
    getUserJobPositionKey (dropPosition mail db title contents) other
      = if title = other ∧ withoutMail mail contents ≠ [] then some (withoutMail mail contents)
        else getUserJobPositionKey db other := by
  unfold dropPosition
  by_cases hnil : withoutMail mail contents = []
  · simp [hnil, getUserJobPositionKey]
  · simp [hnil, getUserJobPositionKey, Entry.asText]

/-- The value of a skill after a mail was taken out of a title. -/
theorem getUserSkillKey_dropPosition (mail : Text) (db : DB) (title contents skill : Text) :
    getUserSkillKey (dropPosition mail db title contents) skill
      = if title = skill ∧ withoutMail mail contents = [] then none
        else getUserSkillKey db skill := by
  unfold dropPosition
  by_cases hnil : withoutMail mail contents = []
  · simp [hnil, getUserSkillKey]
  · simp [hnil, getUserSkillKey]

/-- No position disappears. -/
theorem isSome_getUserJobPositionKey_dropPosition {title contents other : Text}
    (h : (getUserJobPositionKey db other).isSome) :
    (getUserJobPositionKey (dropPosition mail db title contents) other).isSome := by
  rw [getUserJobPositionKey_dropPosition]
  split
  · rfl
  · exact h

/-- The loop over positions returns when every title is found. -/
theorem deleteUserFromJobPositions_returns
    (h : ∀ title ∈ names, (getUserJobPositionKey db (lower title)).isSome) :
    ∃ next, deleteUserFromJobPositions mail db names = (.ok (), next) := by
  induction names generalizing db with
  | nil => exact ⟨db, rfl⟩
  | cons first rest ih =>
      obtain ⟨contents, hcontents⟩ :=
        Option.isSome_iff_exists.mp (h first List.mem_cons_self)
      have hrest : ∀ title ∈ rest, (getUserJobPositionKey
          (dropPosition mail db first contents) (lower title)).isSome := by
        intro title htitle
        exact isSome_getUserJobPositionKey_dropPosition (h title (List.mem_cons_of_mem _ htitle))
      obtain ⟨next, hnext⟩ := ih hrest
      refine ⟨next, forEach_cons_eq_ok.mpr ⟨_, ?_, hnext⟩⟩
      exact deleteUserFromJobPosition_found hcontents

/-- An entry of a position stays when a user is taken out of it. -/
theorem isSome_getUserJobPositionKey_deleteUserFromJobPositions {other : Text}
    (h : (getUserJobPositionKey db other).isSome) :
    (getUserJobPositionKey (deleteUserFromJobPositions mail db names).2 other).isSome := by
  refine forEach_preserves (fun now => (getUserJobPositionKey now other).isSome) ?_ h
  intro title _ before hbefore
  show (getUserJobPositionKey (deleteUserFromJobPosition before title mail).2 other).isSome
  rcases deleteUserFromJobPosition_snd before title mail with hsame | ⟨contents, -, hdrop⟩
  · rwa [hsame]
  · rw [hdrop]
    exact isSome_getUserJobPositionKey_dropPosition hbefore

/-- Whether a mail is the only one under a position does not change when it is taken out. -/
theorem emptied_dropPosition {title contents other : Text}
    (h : getUserJobPositionKey db (lower title) = some contents) :
    Emptied (dropPosition mail db title contents) mail other ↔ Emptied db mail other := by
  unfold Emptied
  rw [getUserJobPositionKey_dropPosition]
  by_cases hchanged : title = lower other ∧ withoutMail mail contents ≠ []
  · obtain ⟨htitle, hne⟩ := hchanged
    have hagain : withoutMail mail (withoutMail mail contents) ≠ [] :=
      removePiece_again_ne_nil hne
    rw [if_pos ⟨htitle, hne⟩]
    have hold : getUserJobPositionKey db (lower other) = some contents := by
      rw [← h, htitle, lower_lower]
    rw [hold]
    simp [hagain, hne]
  · rw [if_neg hchanged]

/-- A mail that is the only one under a position after it was added was the only one before. -/
theorem emptied_of_addMails {title : Text}
    (hthere : (getUserJobPositionKey db (lower title)).isSome)
    (h : Emptied (addMails .userJobPosition mail db names) mail title) :
      Emptied db mail title := by
  induction names generalizing db with
  | nil => exact h
  | cons first rest ih =>
      have hstep : (getUserJobPositionKey (addMail .userJobPosition mail db first)
          (lower title)).isSome := @isSome_indexKey_addMails db _ mail _ [first] (.inl hthere)
      obtain ⟨contents, hcontents, hnil⟩ := ih hstep h
      rw [getUserJobPositionKey, indexKey_addMail] at hcontents
      by_cases heq : first = lower title
      · obtain ⟨old, hold⟩ := Option.isSome_iff_exists.mp hthere
        rw [if_pos heq, heq] at hcontents
        have hold' : indexKey .userJobPosition db (lower title) = some old := hold
        rw [hold'] at hcontents
        cases hcontents
        refine ⟨old, hold, @removePiece_eq_nil_of_append _ _ _ _ _ mail ?_⟩
        simpa [withoutMail, withMail] using hnil
      · rw [if_neg heq] at hcontents
        exact ⟨contents, hcontents, hnil⟩

/-- The skills after the loop over positions: a title whose only mail was taken out loses the
skill of that name. -/
theorem getUserSkillKey_deleteUserFromJobPositions (mail : Text) (db : DB) (names : List Text)
    (skill : Text) :
    getUserSkillKey (deleteUserFromJobPositions mail db names).2 skill
      = getUserSkillKey db skill ∨
      getUserSkillKey (deleteUserFromJobPositions mail db names).2 skill = none ∧
        skill ∈ names ∧ Emptied db mail skill := by
  have hall :=
    @forEach_preserves db _ (fun db title => deleteUserFromJobPosition db title mail) names
    (fun now => (∀ other, Emptied now mail other ↔ Emptied db mail other) ∧
      (getUserSkillKey now skill = getUserSkillKey db skill ∨
        getUserSkillKey now skill = none ∧ skill ∈ names ∧ Emptied db mail skill)) ?_
    ⟨fun _ => Iff.rfl, .inl rfl⟩
  · exact hall.2
  · intro title htitle before ⟨hempty, hvalue⟩
    rcases deleteUserFromJobPosition_snd before title mail with hsame | ⟨contents, hfound, hdrop⟩
    · rw [hsame]
      exact ⟨hempty, hvalue⟩
    · rw [hdrop]
      refine ⟨fun other => (emptied_dropPosition hfound).trans (hempty other), ?_⟩
      rw [getUserSkillKey_dropPosition]
      split
      · rename_i hlost
        obtain ⟨rfl, hnil⟩ := hlost
        exact .inr ⟨rfl, htitle, (hempty title).mp ⟨contents, hfound, hnil⟩⟩
      · exact hvalue

/-- The lists of positions after the loop: the mail is filtered out of the titles that are in
lower case, unless it was the only one there. -/
theorem Lists.deleteUserFromJobPositions {mails : List Text} (hname : lower name = name)
    (hlists : Lists (getUserJobPositionKey db name) mails)
    (h : deleteUserFromJobPositions mail db names = (.ok (), next)) :
    Lists (getUserJobPositionKey next name)
      (if name ∈ names ∧ mails.filter (· ≠ mail) ≠ [] then mails.filter (· ≠ mail)
        else mails) := by
  induction names generalizing db mails with
  | nil =>
      cases h
      simpa using hlists
  | cons first rest ih =>
      obtain ⟨middle, hfirst, hrest⟩ := forEach_cons_eq_ok.mp h
      obtain ⟨contents, hcontents, rfl⟩ := deleteUserFromJobPosition_eq_ok.mp hfirst
      by_cases heq : first = name
      · subst heq
        rw [hname] at hcontents
        rw [hcontents] at hlists
        by_cases hnil : mails.filter (· ≠ mail) = []
        · -- the only mail stays: the loop deletes a key of the other index
          have hkeep : Lists (getUserJobPositionKey
              (dropPosition mail db first contents) first) mails := by
            rw [getUserJobPositionKey_dropPosition, hcontents]
            simp only [hlists.withoutMail_eq_nil.mpr hnil]
            simpa using hlists
          have hall := ih hkeep hrest
          rw [if_neg fun hboth => hboth.2 hnil] at hall ⊢
          exact hall
        · have hdrop : Lists (getUserJobPositionKey
              (dropPosition mail db first contents) first) (mails.filter (· ≠ mail)) := by
            have hne := mt hlists.withoutMail_eq_nil.mp hnil
            rw [getUserJobPositionKey_dropPosition, if_pos ⟨rfl, hne⟩]
            have hdropped : Lists (PersonManager.dropMail mail (some contents))
                (mails.filter (· ≠ mail)) := hlists.dropMail
            simpa [PersonManager.dropMail, hne] using hdropped
          have hall := ih hdrop hrest
          rw [if_pos ⟨List.mem_cons_self, hnil⟩]
          simpa [List.filter_filter] using hall
      · have hkeep : Lists (getUserJobPositionKey
            (dropPosition mail db first contents) name) mails := by
          rw [getUserJobPositionKey_dropPosition, if_neg fun hboth => heq hboth.1]
          exact hlists
        have hall := ih hkeep hrest
        simpa [Ne.symm heq] using hall

end TallerII.PersonManager
