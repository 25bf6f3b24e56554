import TallerII.Lib.Criteria
import TallerII.Layout

/-!
# Searching users by several criteria

`search_users_by` looks the first criterion that is present up and filters the users found by the
later ones. Skills and positions are looked up in their indices; mails, names and distances by a
scan over the records or the names. The lemmas at the end say which users each lookup finds.
-/

namespace TallerII

/-- `Location::getDistanceFrom`, the square of the distance. -/
def Location.getDistanceFrom (location other : Location) : Rat :=
  (location.latitude - other.latitude) ^ 2 + (location.longitude - other.longitude) ^ 2

namespace PersonManager

open Manager Lib.Delimited Lib.Criteria

/-- The characters with a meaning of their own in a regular expression. -/
def metacharacters : Text := "^$\\.*+?()[]\x7b\x7d|".toList

/-- A text that a regular expression takes literally. -/
def IsLiteral (text : Text) : Prop :=
  ∀ c ∈ text, c ∉ metacharacters

/-- What the searches use of the C++ library: the `regex` made of a search text between two
`(.*)`, as the subjects that it matches, and `stod` with its value taken exactly. -/
structure TextLibrary where
  regex : Text → Except Exn (Text → Bool)
  stod : Text → Except Exn Rat

/-- A text that is taken literally matches what contains it. -/
def TextLibrary.Containing (lib : TextLibrary) : Prop :=
  ∀ {search}, IsLiteral search →
    ∃ e, lib.regex search = .ok e ∧ ∀ subject, e subject = true ↔ search <:+: subject

/-- The ends of lines, which a `.` does not match. -/
def lineTerminators : Text := ['\n', '\r']

/-- `(.*)(search)(.*)` matches a subject when the text is taken literally: the subject has it,
with no end of a line before or after it. -/
def MatchesLine (search subject : Text) : Prop :=
  ∃ before after, subject = before ++ search ++ after ∧ ∀ c ∈ before ++ after, c ∉ lineTerminators

/-- A text that is taken literally matches what contains it on one line. -/
def TextLibrary.MatchingLines (lib : TextLibrary) : Prop :=
  ∀ {search}, IsLiteral search →
    ∃ e, lib.regex search = .ok e ∧ ∀ subject, e subject = true ↔ MatchesLine search subject

/-- `regex_match` of a subject with a search text between two `(.*)`: a text that is not an
expression matches nothing. -/
def TextLibrary.regexMatch (lib : TextLibrary) (search subject : Text) : Bool :=
  match lib.regex search with
  | .ok e => e subject
  | .error _ => false

/-- A text that is a pattern matches as the pattern does. -/
theorem TextLibrary.regexMatch_of_regex {lib : TextLibrary} {search : Text} {e : Text → Bool}
    (h : lib.regex search = .ok e) : lib.regexMatch search = e := by
  funext subject
  rw [regexMatch, h]

/-- A text that is no pattern matches nothing. -/
theorem TextLibrary.regexMatch_of_error {lib : TextLibrary} {search : Text} {error : Exn}
    (h : lib.regex search = .error error) (subject : Text) :
    lib.regexMatch search subject = false := by
  rw [regexMatch, h]

/-- A literal text matches what contains it. -/
theorem TextLibrary.Containing.regexMatch_iff {lib : TextLibrary} (hlib : lib.Containing)
    {search subject : Text} (h : IsLiteral search) :
    lib.regexMatch search subject = true ↔ search <:+: subject := by
  obtain ⟨e, hregex, hmatch⟩ := hlib h
  rw [regexMatch_of_regex hregex]
  exact hmatch subject

/-- On a subject of one line that is containment. -/
theorem matchesLine_iff_isInfix {search subject : Text} (h : ∀ c ∈ subject, c ∉ lineTerminators) :
    MatchesLine search subject ↔ search <:+: subject := by
  constructor
  · rintro ⟨before, after, rfl, -⟩
    exact ⟨before, after, rfl⟩
  · rintro ⟨before, after, rfl⟩
    refine ⟨before, after, rfl, fun c hc => h c ?_⟩
    rcases List.mem_append.mp hc with hbefore | hafter
    · exact List.mem_append_left _ (List.mem_append_left _ hbefore)
    · exact List.mem_append_right _ hafter

/-! ## The lookups -/

/-- The element of a vector at an index. -/
def item (values : List Text) (index : Nat) : Except Exn Text :=
  match values[index]? with
  | some value => .ok value
  | none => .error .undefinedBehaviour

variable (lib : TextLibrary) (db : DB)

/-- `searchByMail`: the search text is looked for in the whole key. -/
def searchByMail (userMail : List Text) : Except Exn (List Person) := do
  let userSearch ← item userMail 0
  let e ← lib.regex (lower userSearch)
  let found := (db.scan Prefix.userMail.chars Prefix.userName.chars).filter fun entry => e entry.1
  found.mapM fun entry => Person.ofJson entry.2.parse

/-- The centre and the radius of a distance. -/
def centreAndRadius (distanceSearch : List Text) : Except Exn (Location × Rat) := do
  let latitude ← lib.stod (← item distanceSearch 0)
  let longitude ← lib.stod (← item distanceSearch 1)
  let maxDistance ← lib.stod (← item distanceSearch 2)
  return ({ latitude, longitude }, maxDistance)

/-- `searchByDistance`, a loop over all users: the squared distance is compared with the square of
the radius. -/
def searchByDistance (distanceSearch : List Text) : Except Exn (List Person) := do
  let (searchLocation, maxDistance) ← centreAndRadius lib distanceSearch
  let users ← getAllUsers db
  return users.filter fun user => searchLocation.getDistanceFrom user.location ≤ maxDistance ^ 2

/-- `getCleanName_FromKey`: what stands between the first two underscores of the key, with blanks
for the dashes. -/
def getCleanNameFromKey (nameKey : Text) : Except Exn Text := do
  let fullName ← item (getlines '_' nameKey) 1
  return [' '].intercalate (getlines '-' fullName)

/-- `searchByName`. -/
def searchByName (userSearchName : List Text) : Except Exn (List Person) := do
  let userSearch ← item userSearchName 0
  let e ← lib.regex (lower userSearch)
  let visited := db.scan Prefix.userName.chars Prefix.userPassword.chars
  let found ← visited.mapM fun entry => do
    let cleanFullName ← getCleanNameFromKey entry.1
    if e cleanFullName then
      let user ← getUserByMail db entry.2.asText
      return some user
    else return none
  return found.filterMap id

/-! ## The search -/

/-- The criteria of a search, each with its texts. -/
structure Criteria where
  skill : Option (List Text) := none
  position : Option (List Text) := none
  mail : Option (List Text) := none
  name : Option (List Text) := none
  distance : Option (List Text) := none

/-- Skills are the first criterion: they are never a filter. -/
def bySkill (skills : List Text) : Criterion Exn Person where
  lookup := searchBySkill db skills
  keep := .ok fun _ => true

/-- Positions: as a filter they are compared with the whole work history. -/
def byPosition (positions : List Text) : Criterion Exn Person where
  lookup := searchByJobPosition db positions
  keep := .ok (·.hasEveryPosition positions)

/-- Mails: as a filter the search text is looked for in the mail, as it was typed. -/
def byMail (mails : List Text) : Criterion Exn Person where
  lookup := searchByMail lib db mails
  keep := do
    let searchMail ← item mails 0
    let e ← lib.regex searchMail
    return fun user => e user.email

/-- Names: as a filter the search text is looked for in the first and in the last name. -/
def byName (names : List Text) : Criterion Exn Person where
  lookup := searchByName lib db names
  keep := do
    let searchName ← item names 0
    let e ← lib.regex (lower searchName)
    return fun user => e user.firstName || e user.lastName

/-- Distances: as a filter the squared distance is compared with the radius itself. -/
def byDistance (distanceSearch : List Text) : Criterion Exn Person where
  lookup := searchByDistance lib db distanceSearch
  keep := do
    let (searchLocation, maxDistance) ← centreAndRadius lib distanceSearch
    return fun user => ! (maxDistance < searchLocation.getDistanceFrom user.location : Bool)

/-- `search_users_by`. -/
def searchUsersBy (criteria : Criteria) : Except Exn (List Person) := do
  let found ← stage (criteria.skill.map (bySkill db)) none
  let found ← stage (criteria.position.map (byPosition db)) found
  let found ← stage (criteria.mail.map (byMail lib db)) found
  let found ← stage (criteria.name.map (byName lib db)) found
  let found ← stage (criteria.distance.map (byDistance lib db)) found
  return found.getD []

/-- The criteria that are present, in the order in which they are tried. -/
def present (criteria : Criteria) : List (Criterion Exn Person) :=
  [criteria.skill.map (bySkill db), criteria.position.map (byPosition db),
    criteria.mail.map (byMail lib db), criteria.name.map (byName lib db),
    criteria.distance.map (byDistance lib db)].reduceOption

variable {lib db}

/-- The search answers the criteria that are present. -/
theorem searchUsersBy_eq (criteria : Criteria) :
    searchUsersBy lib db criteria = answer (present lib db criteria) := by
  have hmap : ∀ result : Except Exn (Option (List Person)),
      result.map (fun found => found.getD []) = result >>= fun found => .ok (found.getD []) := by
    intro result
    cases result <;> rfl
  rw [present, ← foldlM_stage_none, hmap]
  simp only [List.foldlM_cons, List.foldlM_nil, bind_assoc, pure_bind, searchUsersBy]
  rfl

/-! ## The users that a lookup finds -/

/-- The values read from items, when all can be read. -/
theorem mem_returned_mapM {α β : Type} {read : α → Except Exn β} {items : List α} {value : β} :
    value ∈ returned (items.mapM read) ↔
      (∀ item ∈ items, ∃ other, read item = .ok other) ∧ ∃ item ∈ items, read item
        = .ok value := by
  constructor
  · intro hvalue
    cases hread : items.mapM read with
    | error e =>
        rw [hread] at hvalue
        simp at hvalue
    | ok values =>
        rw [hread, returned_ok, mem_of_mapM_eq_ok hread] at hvalue
        refine ⟨?_, hvalue⟩
        clear hvalue
        induction items generalizing values with
        | nil => simp
        | cons item items ih =>
            simp only [List.mapM_cons, bind_eq_ok] at hread
            obtain ⟨first, hfirst, rest, hrest, -⟩ := hread
            intro other hother
            rcases List.mem_cons.mp hother with rfl | hother
            · exact ⟨first, hfirst⟩
            · exact ih rest hrest other hother
  · rintro ⟨hall, hvalue⟩
    obtain ⟨values, hvalues⟩ := exists_mapM_eq_ok hall
    rw [hvalues, returned_ok, mem_of_mapM_eq_ok hvalues]
    exact hvalue

/-- What is returned of a result that is filtered at the end. -/
theorem returned_filter {α : Type} (result : Except Exn (List α)) (good : α → Bool) :
    returned (result >>= fun found => .ok (found.filter good))
      = (returned result).filter good := by
  cases result <;> rfl

/-- The user is listed under a name of an index, and every mail listed there can be read. -/
def ListedUnder (db : DB) (mails : Option Text) (user : Person) : Prop :=
  ∃ contents, mails = some contents ∧
    (∀ mail ∈ split contents, ∃ other, getUserByMail db mail = .ok other) ∧
    ∃ mail ∈ split contents, getUserByMail db mail = .ok user

/-- The users that a search by skill finds. -/
def HasSkills (db : DB) (skills : List Text) (user : Person) : Prop :=
  ∃ first, skills.head? = some first ∧ ListedUnder db (getUserSkillKey db (lower first)) user ∧
    user.hasEverySkill skills

/-- The users that a search by position finds. -/
def HasPositions (db : DB) (positions : List Text) (user : Person) : Prop :=
  ∃ first, positions.head? = some first ∧
    ListedUnder db (getUserJobPositionKey db (lower first)) user ∧
    user.hasEveryPosition (positions.map lower)

/-- The search by skills finds the users who have them. -/
theorem mem_searchBySkill {skills : List Text} {user : Person} :
    user ∈ returned (searchBySkill db skills) ↔ HasSkills db skills user := by
  cases skills with
  | nil => simp [searchBySkill, HasSkills]
  | cons first rest =>
      cases hmails : getUserSkillKey db (lower first) with
      | none => simp [searchBySkill, HasSkills, ListedUnder, hmails]
      | some contents =>
          have hsearch : searchBySkill db (first :: rest)
              = (split contents).mapM (getUserByMail db) >>= fun usersResult =>
                .ok (usersResult.filter (·.hasEverySkill (first :: rest))) := by
            rw [searchBySkill, hmails]
            rfl
          rw [hsearch, returned_filter, List.mem_filter, mem_returned_mapM]
          simp [HasSkills, ListedUnder, hmails]

/-- The search by positions finds the users who have them. -/
theorem mem_searchByJobPosition {positions : List Text} {user : Person} :
    user ∈ returned (searchByJobPosition db positions) ↔ HasPositions db positions user := by
  cases positions with
  | nil => simp [searchByJobPosition, HasPositions]
  | cons first rest =>
      cases hmails : getUserJobPositionKey db (lower first) with
      | none => simp [searchByJobPosition, HasPositions, ListedUnder, hmails]
      | some contents =>
          have hsearch : searchByJobPosition db (first :: rest)
              = (split contents).mapM (getUserByMail db) >>= fun usersResult =>
                .ok (usersResult.filter (·.hasEveryPosition ((first :: rest).map lower))) := by
            simp only [searchByJobPosition, List.map_cons, hmails]
            rfl
          rw [hsearch, returned_filter, List.mem_filter, mem_returned_mapM]
          simp [HasPositions, ListedUnder, hmails]

/-- A record of the store. -/
def IsRecord (db : DB) (user : Person) : Prop :=
  getUserByMail db user.email = .ok user

/-- A user found under a name of an index has a record. -/
theorem isRecord_of_getUserByMail (h : Consistent db) {mail : Text} {user : Person}
    (hread : getUserByMail db mail = .ok user) : IsRecord db user := by
  obtain ⟨-, hmail, -⟩ := h.getUserByMail_eq_ok.mp hread
  rwa [IsRecord, hmail]

/-- Whoever is listed under a mail is a user. -/
theorem ListedUnder.isRecord (h : Consistent db) {mails : Option Text} {user : Person}
    (hlisted : ListedUnder db mails user) : IsRecord db user := by
  obtain ⟨-, -, -, mail, -, hread⟩ := hlisted
  exact isRecord_of_getUserByMail h hread

/-- The entries that the scan over the records visits. -/
theorem mem_scan_record (h : Consistent db) (hlaid : Laid db) {entry : Text × Entry} :
    entry ∈ db.scan Prefix.userMail.chars Prefix.userName.chars ↔
      ∃ user, IsRecord db user ∧ entry = (key .userMail user.email, .json user.serializeMe) := by
  rw [hlaid.mem_scan rfl range_userMail]
  constructor
  · rintro ⟨mail, hkey, hentry, -⟩
    obtain ⟨user, hvalue, rfl, hnormalized⟩ := h.record mail entry.2 hentry
    refine ⟨user, ?_, Prod.ext hkey hvalue⟩
    rw [hvalue] at hentry
    exact getUserByMail_of_stored hnormalized hentry
  · rintro ⟨user, hread, rfl⟩
    exact ⟨user.email, rfl, (h.getUserByMail_eq_ok.mp hread).1, rfl⟩

/-- A record is read back from the entry that the scan visits. -/
theorem IsRecord.ofJson (h : Consistent db) {user : Person} (hread : IsRecord db user) :
    Person.ofJson (Entry.json user.serializeMe).parse = .ok user :=
  Person.ofJson_serializeMe (h.getUserByMail_eq_ok.mp hread).2.2

/-- The scan over all users finds each of them. -/
theorem mem_getAllUsers (h : Consistent db) (hlaid : Laid db) {user : Person} :
    user ∈ returned (getAllUsers db) ↔ IsRecord db user := by
  rw [getAllUsers, mem_returned_mapM]
  constructor
  · rintro ⟨-, entry, hentry, hread⟩
    obtain ⟨stored, hstored, rfl⟩ := (mem_scan_record h hlaid).mp hentry
    rw [hstored.ofJson h] at hread
    cases hread
    exact hstored
  · intro hrecord
    constructor
    · intro entry hentry
      obtain ⟨stored, hstored, rfl⟩ := (mem_scan_record h hlaid).mp hentry
      exact ⟨stored, hstored.ofJson h⟩
    · exact ⟨_, (mem_scan_record h hlaid).mpr ⟨user, hrecord, rfl⟩, hrecord.ofJson h⟩

/-- The expression is made before the records are visited. -/
theorem searchByMail_eq (search : Text) (others : List Text) :
    searchByMail lib db (search :: others) = lib.regex (lower search) >>= fun e =>
      ((db.scan Prefix.userMail.chars Prefix.userName.chars).filter fun entry => e entry.1).mapM
        fun entry => Person.ofJson entry.2.parse := rfl

/-- The search by mail finds the users whose mail matches. -/
theorem mem_searchByMail (h : Consistent db) (hlaid : Laid db) {search : Text}
    {others : List Text}
    {user : Person} :
    user ∈ returned (searchByMail lib db (search :: others)) ↔
      IsRecord db user ∧ lib.regexMatch (lower search) (key .userMail user.email) := by
  rw [searchByMail_eq]
  cases hregex : lib.regex (lower search) with
  | error error => simp [lib.regexMatch_of_error hregex]
  | ok e =>
      rw [lib.regexMatch_of_regex hregex, ok_bind, mem_returned_mapM]
      constructor
      · rintro ⟨-, entry, hentry, hread⟩
        obtain ⟨hvisited, hmatch⟩ := List.mem_filter.mp hentry
        obtain ⟨stored, hstored, rfl⟩ := (mem_scan_record h hlaid).mp hvisited
        rw [hstored.ofJson h] at hread
        cases hread
        exact ⟨hstored, hmatch⟩
      · rintro ⟨hrecord, hmatch⟩
        constructor
        · intro entry hentry
          obtain ⟨stored, hstored, rfl⟩ :=
            (mem_scan_record h hlaid).mp (List.mem_filter.mp hentry).1
          exact ⟨stored, hstored.ofJson h⟩
        · refine ⟨_,
            List.mem_filter.mpr ⟨(mem_scan_record h hlaid).mpr ⟨user, hrecord, rfl⟩, hmatch⟩, ?_⟩
          exact hrecord.ofJson h

/-- The search by distance finds the users within the radius. -/
theorem mem_searchByDistance (h : Consistent db) (hlaid : Laid db) {distanceSearch : List Text}
    {centre : Location} {radius : Rat}
    (hread : centreAndRadius lib distanceSearch = .ok (centre, radius)) {user : Person} :
    user ∈ returned (searchByDistance lib db distanceSearch) ↔
      IsRecord db user ∧ centre.getDistanceFrom user.location ≤ radius ^ 2 := by
  have hsearch : searchByDistance lib db distanceSearch = getAllUsers db >>= fun users =>
      .ok (users.filter fun user => centre.getDistanceFrom user.location ≤ radius ^ 2) := by
    rw [searchByDistance, hread]
    rfl
  rw [hsearch, returned_filter, List.mem_filter, mem_getAllUsers h hlaid, decide_eq_true_eq]

/-! ## The names -/

/-- The name key of a user has a name in it. -/
theorem exists_cleanName (user : Person) :
    ∃ fullName, getCleanNameFromKey (userNameKey user) = .ok fullName := by
  have hkey : userNameKey user = "user:name".toList
      ++ '_' :: (user.getFullName ++ ['_'] ++ user.email) := rfl
  have hpieces : getlines '_' (userNameKey user) = "user:name".toList
      :: getlines '_' (user.getFullName ++ ['_'] ++ user.email) := by
    rw [hkey]
    exact getlines_append_delim (by decide : '_' ∉ "user:name".toList) _
  have hnonempty : getlines '_' (user.getFullName ++ ['_'] ++ user.email) ≠ [] := by
    rw [ne_eq, getlines_eq_nil]
    simp
  obtain ⟨fullName, rest, hrest⟩ := List.exists_cons_of_ne_nil hnonempty
  refine ⟨[' '].intercalate (getlines '-' fullName), ?_⟩
  rw [getCleanNameFromKey, hpieces, hrest]
  rfl

/-- A full name that the store keeps, with the mail under it. -/
def NameEntry (db : DB) (fullName mail : Text) : Prop :=
  ∃ rest entry, db.existsKey (key .userName rest) = some entry ∧ entry.isEmpty = false ∧
    entry.asText = mail ∧ getCleanNameFromKey (key .userName rest) = .ok fullName

/-- The users that a search by name finds: those under a matching name, when each of these leads
to a user. -/
def HasName (db : DB) (matching : Text → Prop) (user : Person) : Prop :=
  (∀ fullName mail, NameEntry db fullName mail → matching fullName →
    ∃ other, getUserByMail db mail = .ok other) ∧
    ∃ fullName mail, NameEntry db fullName mail ∧ matching fullName ∧
      getUserByMail db mail = .ok user

/-- What the loop of `searchByName` does with an entry. -/
def readName (e : Text → Bool) (db : DB) (entry : Text × Entry) : Except Exn (Option Person) := do
  let cleanFullName ← getCleanNameFromKey entry.1
  if e cleanFullName then
    let user ← getUserByMail db entry.2.asText
    return some user
  else return none

/-- What the search makes of an entry of a name. -/
theorem readName_eq {e : Text → Bool} {fullName : Text} {entry : Text × Entry}
    (hname : getCleanNameFromKey entry.1 = .ok fullName) :
    readName e db entry
      = if e fullName then
          (getUserByMail db entry.2.asText).map some
        else .ok none := by
  rw [readName, hname, ok_bind]
  split
  · cases getUserByMail db entry.2.asText <;> rfl
  · rfl

/-- A name that matches has to lead to a record, and the others are passed over. -/
theorem readName_returns {e : Text → Bool} {fullName : Text} {entry : Text × Entry}
    (hname : getCleanNameFromKey entry.1 = .ok fullName) :
    (∃ result, readName e db entry = .ok result) ↔
      (e fullName → ∃ user, getUserByMail db entry.2.asText = .ok user) := by
  rw [readName_eq hname]
  split
  · rename_i hmatch
    cases getUserByMail db entry.2.asText <;> simp [hmatch, Except.map]
  · rename_i hmatch
    exact ⟨fun _ htrue => absurd htrue hmatch, fun _ => ⟨none, rfl⟩⟩

/-- An entry leads to a user when its name matches. -/
theorem readName_eq_some {e : Text → Bool} {fullName : Text} {entry : Text × Entry}
    {user : Person}
    (hname : getCleanNameFromKey entry.1 = .ok fullName) :
    readName e db entry = .ok (some user) ↔
      e fullName ∧ getUserByMail db entry.2.asText = .ok user := by
  rw [readName_eq hname]
  split
  · rename_i hmatch
    cases getUserByMail db entry.2.asText <;> simp [hmatch, Except.map]
  · rename_i hmatch
    simp [hmatch]

/-- The expression is made before the names are visited. -/
theorem searchByName_eq (search : Text) (others : List Text) :
    searchByName lib db (search :: others) = lib.regex (lower search) >>= fun e =>
      (db.scan Prefix.userName.chars Prefix.userPassword.chars).mapM (readName e db)
        >>= fun found => .ok (found.filterMap id) := rfl

/-- The search by name finds the users whose entries match. -/
theorem mem_searchByName (hlaid : Laid db) (hnamed : Named db) {search : Text}
    {others : List Text} {user : Person} :
    user ∈ returned (searchByName lib db (search :: others)) ↔
      HasName db (fun fullName => lib.regexMatch (lower search) fullName) user := by
  have hkept : ∀ result : Except Exn (List (Option Person)),
      user ∈ returned (result >>= fun found => .ok (found.filterMap id)) ↔
        some user ∈ returned result := by
    intro result
    cases result <;> simp
  -- every name that the scan visits can be read back from its key
  have hentry : ∀ entry, entry ∈ db.scan Prefix.userName.chars Prefix.userPassword.chars →
      ∃ fullName, getCleanNameFromKey entry.1 = .ok fullName ∧
        NameEntry db fullName entry.2.asText := by
    intro entry hvisited
    obtain ⟨rest, hkey, hvalue, hnonempty⟩ := (hlaid.mem_scan rfl range_userName).mp hvisited
    obtain ⟨named, hname⟩ := hnamed rest entry.2 hvalue
    obtain ⟨fullName, hclean⟩ := exists_cleanName named
    rw [← hname] at hclean
    exact ⟨fullName, by rw [hkey, hclean], rest, entry.2, hvalue, hnonempty, rfl, hclean⟩
  rw [searchByName_eq]
  cases hregex : lib.regex (lower search) with
  | error error => simp [HasName, lib.regexMatch_of_error hregex]
  | ok e =>
      rw [lib.regexMatch_of_regex hregex, ok_bind, hkept, mem_returned_mapM]
      constructor
      · rintro ⟨hall, entry, hvisited, hread⟩
        constructor
        · rintro fullName mail ⟨rest, value, hvalue, hnonempty, rfl, hclean⟩ hmatch
          have hother : (key .userName rest, value) ∈
              db.scan Prefix.userName.chars Prefix.userPassword.chars :=
            (hlaid.mem_scan rfl range_userName).mpr ⟨rest, rfl, hvalue, hnonempty⟩
          exact (readName_returns hclean).mp (hall _ hother) hmatch
        · obtain ⟨fullName, hclean, hnamedEntry⟩ := hentry entry hvisited
          obtain ⟨hmatch, hfound⟩ := (readName_eq_some hclean).mp hread
          exact ⟨fullName, _, hnamedEntry, hmatch, hfound⟩
      · rintro ⟨hall, fullName, mail, ⟨rest, value, hvalue, hnonempty, rfl, hclean⟩, hmatch,
          hread⟩
        constructor
        · intro entry hvisited
          obtain ⟨other, hclean, hnamedEntry⟩ := hentry entry hvisited
          exact (readName_returns hclean).mpr (hall other _ hnamedEntry)
        · refine ⟨(key .userName rest, value), ?_, (readName_eq_some hclean).mpr ⟨hmatch, hread⟩⟩
          exact (hlaid.mem_scan rfl range_userName).mpr ⟨rest, rfl, hvalue, hnonempty⟩

/-- A user found by name has a record. -/
theorem HasName.isRecord (h : Consistent db) {matching : Text → Prop} {user : Person}
    (hname : HasName db matching user) : IsRecord db user := by
  obtain ⟨-, -, mail, -, -, hread⟩ := hname
  exact isRecord_of_getUserByMail h hread

end PersonManager

end TallerII
