import TallerII.Json

/-!
# Persons

The profile of a user with its work history and skills, reading it from JSON and writing it.
`Person.ofJson_serializeMe` says that a profile whose names are in lower case, as reading leaves
them, survives being written and read.
-/

namespace TallerII

/-- A string member of a JSON value. -/
def Json.stringMember (value : Json) (name : String) : Except Exn Text := do
  (← value.member name).asString

/-- One position of a work history. -/
structure WorkHistory where
  positionTitle : Text
  company : Text
  fromDate : Text
  toDate : Text
deriving Repr, DecidableEq

/-- A skill. -/
structure Skill where
  name : Text
  description : Text
  category : Text
deriving Repr, DecidableEq

/-- A place; no place is the origin. -/
structure Location where
  latitude : Rat
  longitude : Rat
deriving Repr, DecidableEq

/-- `Location::isEmpty`. -/
def Location.isEmpty (location : Location) : Bool :=
  location.latitude = 0 && location.longitude = 0

/-- A profile. -/
structure Person where
  id : Long
  totRecommendations : Int32
  firstName : Text
  lastName : Text
  email : Text
  password : Text
  dateOfBirth : Text
  city : Text
  summary : Text
  location : Location
  workHistory : List WorkHistory
  skills : List Skill
deriving Repr, DecidableEq

/-! ## Reading -/

/-- `WorkHistory::deserializeMe`. -/
def WorkHistory.ofJson (value : Json) : Except Exn WorkHistory := do
  let positionTitle ← value.stringMember "position_title"
  let company ← value.stringMember "company"
  let fromDate ← value.stringMember "from_date"
  let toDate ← value.stringMember "to_date"
  return { positionTitle, company, fromDate, toDate }

/-- `Skill::deserializeMe`. -/
def Skill.ofJson (value : Json) : Except Exn Skill := do
  let name ← value.stringMember "name"
  let description ← value.stringMember "description"
  let category ← value.stringMember "category"
  return { name := lower name, description, category }

/-- `Person::deserializeMe`. -/
def Person.ofJson (personAsJson : Json) : Except Exn Person := do
  let id ← (← personAsJson.member "id").asLargestInt
  let firstName ← personAsJson.stringMember "first_name"
  let lastName ← personAsJson.stringMember "last_name"
  let email ← personAsJson.stringMember "email"
  let password ← personAsJson.stringMember "password"
  let dateOfBirth ← personAsJson.stringMember "date_of_birth"
  let city ← personAsJson.stringMember "city"
  let summary ← personAsJson.stringMember "summary"
  let totRecommendations ← (← personAsJson.member "tot_recommendations").asInt
  let latitude ← (← (← personAsJson.member "location").member "latitude").asDouble
  let longitude ← (← (← personAsJson.member "location").member "longitude").asDouble
  let jWorkHistoryVector ← (← personAsJson.member "work_history").elements
  let workHistory ← jWorkHistoryVector.mapM WorkHistory.ofJson
  let jSkillVector ← (← personAsJson.member "skills").elements
  let skills ← jSkillVector.mapM Skill.ofJson
  return {
    id, totRecommendations
    firstName := lower firstName
    lastName := lower lastName
    email := lower email
    password, dateOfBirth
    city := lower city
    summary
    location := { latitude, longitude }
    workHistory, skills }

/-! ## Writing -/

/-- `WorkHistory::serializeMe`. -/
def WorkHistory.serializeMe (job : WorkHistory) : Json :=
  Json.ofMembers [
    ("position_title", .string job.positionTitle),
    ("company", .string job.company),
    ("from_date", .string job.fromDate),
    ("to_date", .string job.toDate)]

/-- `Skill::serializeMe`. -/
def Skill.serializeMe (skill : Skill) : Json :=
  Json.ofMembers [
    ("name", .string skill.name),
    ("description", .string skill.description),
    ("category", .string skill.category)]

/-- The member that appending the items to `operator[](name)` leaves: none without an item. -/
def Json.appendedMember (name : String) (items : List Json) : List (String × Json) :=
  if items.isEmpty then [] else [(name, .array items)]

/-- `Person::serializeMe`. -/
def Person.serializeMe (person : Person) : Json :=
  Json.ofMembers ([
    ("id", .ofLong person.id),
    ("first_name", .string person.firstName),
    ("last_name", .string person.lastName),
    ("email", .string person.email),
    ("password", .string person.password),
    ("date_of_birth", .string person.dateOfBirth),
    ("city", .string person.city),
    ("summary", .string person.summary),
    ("location", Json.ofMembers [
      ("latitude", .real person.location.latitude),
      ("longitude", .real person.location.longitude)]),
    ("tot_recommendations", .ofInt person.totRecommendations)] ++
    Json.appendedMember "work_history" (person.workHistory.map WorkHistory.serializeMe) ++
    Json.appendedMember "skills" (person.skills.map Skill.serializeMe))

/-- A profile with a mail, skills and positions that have ended, and nothing else. -/
def Person.sample (email : Text) (skillNames positionTitles : List Text) : Person :=
  { id := 0, totRecommendations := 0, firstName := [], lastName := [], email, password := []
    dateOfBirth := [], city := [], summary := [], location := { latitude := 0, longitude := 0 }
    workHistory := positionTitles.map fun positionTitle =>
      { positionTitle, company := [], fromDate := [], toDate := "2016".toList }
    skills := skillNames.map fun name => { name, description := [], category := [] } }

/-! ## Queries -/

/-- `Person::getFullName`. -/
def Person.getFullName (person : Person) : Text :=
  person.firstName ++ ['-'] ++ person.lastName

/-- `Person::getCurrentJob`: the first position without an end. -/
def Person.getCurrentJob (person : Person) : Option WorkHistory :=
  person.workHistory.find? (·.toDate = [])

/-- The names of the skills. -/
def Person.skillNames (person : Person) : List Text :=
  person.skills.map Skill.name

/-- The titles of the work history, as they were written. -/
def Person.positionTitles (person : Person) : List Text :=
  person.workHistory.map WorkHistory.positionTitle

/-- `Person::hasSkill`. -/
def Person.hasSkill (person : Person) (skill : Text) : Bool :=
  person.skills.any (·.name = skill)

/-- `Person::has_every_skill`. -/
def Person.hasEverySkill (person : Person) (skills : List Text) : Bool :=
  skills.all fun skill => person.hasSkill (lower skill)

/-- `Person::hasPosition`. -/
def Person.hasPosition (person : Person) (position : Text) : Bool :=
  person.workHistory.any fun job => lower job.positionTitle = lower position

/-- `Person::has_every_position`. -/
def Person.hasEveryPosition (person : Person) (positions : List Text) : Bool :=
  positions.all person.hasPosition

/-! ## Reading what was written -/

/-- The texts that reading puts in lower case are in lower case. -/
structure Person.Normalized (person : Person) : Prop where
  firstName : lower person.firstName = person.firstName
  lastName : lower person.lastName = person.lastName
  email : lower person.email = person.email
  city : lower person.city = person.city
  skills : ∀ skill ∈ person.skills, lower skill.name = skill.name

/-- A job survives storing and loading. -/
@[simp] theorem WorkHistory.ofJson_serializeMe (job : WorkHistory) :
    WorkHistory.ofJson job.serializeMe = .ok job := by
  simp [WorkHistory.ofJson, WorkHistory.serializeMe, Json.stringMember, Json.assigned]

/-- So does a skill with a name in lower case. -/
theorem Skill.ofJson_serializeMe {skill : Skill} (h : lower skill.name = skill.name) :
    Skill.ofJson skill.serializeMe = .ok skill := by
  simp [Skill.ofJson, Skill.serializeMe, Json.stringMember, Json.assigned, h]

/-- Reading each written item gives the list back. -/
theorem mapM_map_of_inverse {α β : Type} {read : β → Except Exn α} {write : α → β}
    {items : List α} (h : ∀ item ∈ items, read (write item) = .ok item) :
    (items.map write).mapM read = .ok items := by
  induction items with
  | nil => rfl
  | cons item items ih =>
      rw [List.map_cons, List.mapM_cons, h item List.mem_cons_self,
        ih fun other hother => h other (List.mem_cons_of_mem _ hother)]
      rfl

/-- Of two lists of members the later one counts. -/
theorem Json.assigned_append (name : String) (first second : List (String × Json)) :
    assigned name (first ++ second) = (assigned name second).or (assigned name first) := by
  induction first with
  | nil => simp [assigned]
  | cons member first ih => simp [assigned, ih, Option.or_assoc]

/-- A list without items is no member. -/
theorem Json.assigned_appendedMember (name other : String) (items : List Json) :
    assigned name (appendedMember other items)
      = if other = name ∧ items ≠ [] then some (.array items) else none := by
  cases items <;> simp [appendedMember, assigned]

/-- The items of an appended member are read back, also when there are none. -/
theorem Json.elements_appendedMember {α : Type} (write : α → Json) (items : List α) :
    elements (Option.getD (if items = [] then none else some (.array (items.map write))) .null)
      = .ok (items.map write) := by
  cases items <;> rfl

/-- A normalized profile survives being written and read. -/
theorem Person.ofJson_serializeMe {person : Person} (h : person.Normalized) :
    Person.ofJson person.serializeMe = .ok person := by
  have hjobs : (person.workHistory.map WorkHistory.serializeMe).mapM WorkHistory.ofJson
      = .ok person.workHistory :=
    mapM_map_of_inverse fun job _ => WorkHistory.ofJson_serializeMe job
  have hskills : (person.skills.map Skill.serializeMe).mapM Skill.ofJson = .ok person.skills :=
    mapM_map_of_inverse fun skill hskill => Skill.ofJson_serializeMe (h.skills skill hskill)
  simp [Person.ofJson, Person.serializeMe, Json.stringMember, Json.assigned_append,
    Json.assigned_appendedMember, Json.assigned, Json.elements_appendedMember, hjobs, hskills,
    h.firstName, h.lastName, h.email, h.city]

/-- The name of a skill that was read is in lower case. -/
theorem Skill.lower_name_of_ofJson {value : Json} {skill : Skill}
    (h : Skill.ofJson value = .ok skill) : lower skill.name = skill.name := by
  simp only [Skill.ofJson, bind_eq_ok] at h
  obtain ⟨name, _, description, _, category, _, hskill⟩ := h
  cases hskill
  exact lower_lower name

/-- What a reader guarantees of every value it returns holds of every item that `mapM` reads. -/
theorem forall_mem_of_mapM {α β : Type} {read : α → Except Exn β} {good : β → Prop}
    (hread : ∀ value item, read value = .ok item → good item) {values : List α} {items : List β}
    (h : values.mapM read = .ok items) : ∀ item ∈ items, good item := by
  induction values generalizing items with
  | nil =>
      cases h
      simp
  | cons value values ih =>
      simp only [List.mapM_cons, bind_eq_ok] at h
      obtain ⟨first, hfirst, rest, hrest, hitems⟩ := h
      cases hitems
      intro item hitem
      rcases List.mem_cons.mp hitem with rfl | hitem
      · exact hread _ _ hfirst
      · exact ih hrest item hitem

/-- Reading puts the names in lower case. -/
theorem Person.normalized_of_ofJson {value : Json} {person : Person}
    (h : Person.ofJson value = .ok person) : person.Normalized := by
  simp only [Person.ofJson, bind_eq_ok] at h
  -- the skills are read last, after twenty-two other members, elements and conversions
  iterate 22 obtain ⟨_, -, h⟩ := h
  obtain ⟨skills, hskills, hperson⟩ := h
  cases hperson
  exact {
    firstName := lower_lower _
    lastName := lower_lower _
    email := lower_lower _
    city := lower_lower _
    skills := forall_mem_of_mapM (fun _ _ => Skill.lower_name_of_ofJson) hskills }

/-- The mail and the password that reading takes from the value. -/
theorem Person.login_of_ofJson {value : Json} {person : Person}
    (h : Person.ofJson value = .ok person) :
    (∃ email, value.stringMember "email" = .ok email ∧ person.email = lower email) ∧
      value.stringMember "password" = .ok person.password := by
  simp only [Person.ofJson, bind_eq_ok] at h
  iterate 4 obtain ⟨_, -, h⟩ := h
  obtain ⟨email, hemail, password, hpassword, h⟩ := h
  -- seventeen more readings follow
  iterate 17 obtain ⟨_, -, h⟩ := h
  cases h
  exact ⟨⟨email, hemail, rfl⟩, hpassword⟩

end TallerII
