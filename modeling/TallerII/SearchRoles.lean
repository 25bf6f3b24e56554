import TallerII.SearchUsers

/-!
# The two roles of a search criterion

A mail, a name or a distance that comes after another criterion is a filter, and the filter is not
the test of the lookup: it takes the mail as it was typed, the first or the last name instead of
the full one, and the radius instead of its square. `textRoles_iff` and `distanceRoles_iff` say
for which users found by the first criterion the two tests have to agree.
-/

namespace TallerII.PersonManager

open Manager Lib.Criteria

variable {db : DB}

/-! ## Literal texts -/

/-- A character is its own lower case, or its lower case is a letter. -/
theorem toLower_cases (c : Char) :
    c.toLower = c ∨ 97 ≤ c.toLower.toNat ∧ c.toLower.toNat ≤ 122 := by
  unfold Char.toLower
  split
  · rename_i hupper
    obtain ⟨hlow, hhigh⟩ := hupper
    rw [ge_iff_le, UInt32.le_iff_toNat_le] at hlow
    rw [UInt32.le_iff_toNat_le] at hhigh
    have hvalue : (c.val + ('a'.val - 'A'.val)).toNat = c.val.toNat + 32 := by
      have hsum := UInt32.toNat_add c.val ('a'.val - 'A'.val)
      rw [show ('a'.val - 'A'.val).toNat = 32 from rfl] at hsum
      have hbound : c.val.toNat ≤ 90 := hhigh
      omega
    have hlow' : 65 ≤ c.val.toNat := hlow
    have hhigh' : c.val.toNat ≤ 90 := hhigh
    refine .inr ⟨?_, ?_⟩
    · show 97 ≤ (c.val + ('a'.val - 'A'.val)).toNat
      omega
    · show (c.val + ('a'.val - 'A'.val)).toNat ≤ 122
      omega
  · exact .inl rfl

/-- Lower case takes no character to a metacharacter. -/
theorem IsLiteral.lower {text : Text} (h : IsLiteral text) : IsLiteral (lower text) := by
  have hnone : metacharacters.all (fun m => m.toNat < 97 || 122 < m.toNat) = true := by decide
  intro c hc hmeta
  obtain ⟨original, horiginal, rfl⟩ := List.mem_map.mp hc
  rcases toLower_cases original with hsame | hletter
  · rw [hsame] at hmeta
    exact h original horiginal hmeta
  · have hother := List.all_eq_true.mp hnone _ hmeta
    simp only [Bool.or_eq_true, decide_eq_true_eq] at hother
    omega

/-! ## Criteria -/

/-- A criterion that is a list of names of an index. -/
inductive ListCriterion where
  | skill (skills : List Text)
  | position (positions : List Text)

/-- A criterion that is a text to look for, followed by texts that are not looked at. -/
inductive TextCriterion where
  | mail (search : Text) (others : List Text)
  | name (search : Text) (others : List Text)

/-- A criterion other than the distance. -/
inductive UserCriterion where
  | list (criterion : ListCriterion)
  | text (criterion : TextCriterion)

/-- The criteria with a list. -/
def ListCriterion.add (criteria : Criteria) : ListCriterion → Criteria
  | skill skills => { criteria with skill := some skills }
  | position positions => { criteria with position := some positions }

/-- The criteria with a text. -/
def TextCriterion.add (criteria : Criteria) : TextCriterion → Criteria
  | mail search others => { criteria with mail := some (search :: others) }
  | name search others => { criteria with name := some (search :: others) }

/-- The criteria with one more. -/
def UserCriterion.add (criteria : Criteria) : UserCriterion → Criteria
  | list criterion => criterion.add criteria
  | text criterion => criterion.add criteria

/-- The text that is looked for. -/
def TextCriterion.search : TextCriterion → Text
  | mail search _ => search
  | name search _ => search

/-- The users that a search for a list finds. -/
def ListCriterion.Holds (db : DB) (user : Person) : ListCriterion → Prop
  | skill skills => HasSkills db skills user
  | position positions => HasPositions db positions user

/-- The users that a search for a text finds. -/
def TextCriterion.Holds (lib : TextLibrary) (db : DB) (user : Person) : TextCriterion → Prop
  | mail search _ => IsRecord db user ∧ lib.regexMatch (lower search) (key .userMail user.email)
  | name search _ => HasName db (fun fullName => lib.regexMatch (lower search) fullName) user

/-- The users that a search for a criterion finds. -/
def UserCriterion.Holds (lib : TextLibrary) (db : DB) (user : Person) : UserCriterion → Prop
  | list criterion => criterion.Holds db user
  | text criterion => criterion.Holds lib db user

/-- The users that a search returns. -/
def Finds (lib : TextLibrary) (db : DB) (criteria : Criteria) (user : Person) : Prop :=
  user ∈ returned (searchUsersBy lib db criteria)

/-- What a search by two criteria finds is what it finds by each of them. -/
def BothFound (lib : TextLibrary) (db : DB) (first second both : Criteria) : Prop :=
  ∀ user, Finds lib db both user ↔ Finds lib db first user ∧ Finds lib db second user

variable {lib : TextLibrary} {user : Person}

/-- The two roles of a list. -/
def ListCriterion.roles (db : DB) : ListCriterion → Criterion Exn Person
  | skill skills => bySkill db skills
  | position positions => byPosition db positions

/-- The two roles of a text. -/
def TextCriterion.roles (lib : TextLibrary) (db : DB) : TextCriterion → Criterion Exn Person
  | mail search others => byMail lib db (search :: others)
  | name search others => byName lib db (search :: others)

/-- The two roles of a criterion. -/
def UserCriterion.roles (lib : TextLibrary) (db : DB) : UserCriterion → Criterion Exn Person
  | list criterion => criterion.roles db
  | text criterion => criterion.roles lib db

/-- A search by a list finds the users who have what is listed. -/
theorem mem_lookup_list {criterion : ListCriterion} :
    user ∈ returned (criterion.roles db).lookup ↔ criterion.Holds db user := by
  cases criterion with
  | skill skills => exact mem_searchBySkill
  | position positions => exact mem_searchByJobPosition

/-- A search by a text finds the users whose text matches. -/
theorem mem_lookup_text (h : Reachable db) {criterion : TextCriterion} :
    user ∈ returned (criterion.roles lib db).lookup ↔ criterion.Holds lib db user := by
  cases criterion with
  | mail search others => exact mem_searchByMail h.consistent h.laid
  | name search others => exact mem_searchByName h.laid h.named

/-- A search by either finds the users for whom it holds. -/
theorem mem_lookup_user (h : Reachable db) {criterion : UserCriterion} :
    user ∈ returned (criterion.roles lib db).lookup ↔ criterion.Holds lib db user := by
  cases criterion with
  | list criterion => exact mem_lookup_list
  | text criterion => exact mem_lookup_text h

/-- Whoever a criterion finds has a record. -/
theorem ListCriterion.Holds.isRecord (h : Consistent db) {criterion : ListCriterion}
    (hholds : criterion.Holds db user) : IsRecord db user := by
  cases criterion with
  | skill skills =>
      obtain ⟨first, -, hlisted, -⟩ := hholds
      exact hlisted.isRecord h
  | position positions =>
      obtain ⟨first, -, hlisted, -⟩ := hholds
      exact hlisted.isRecord h

/-- Whoever is found is a user. -/
theorem UserCriterion.Holds.isRecord (h : Consistent db) {criterion : UserCriterion}
    (hholds : criterion.Holds lib db user) : IsRecord db user := by
  cases criterion with
  | list criterion => exact ListCriterion.Holds.isRecord h hholds
  | text criterion =>
      cases criterion with
      | mail search others => exact hholds.1
      | name search others => exact HasName.isRecord h hholds

/-- Two criteria agree when the second one keeps what it looks up, among what the first one finds.
-/
theorem bothFound_iff {first second both : Criteria} {lookup filter : Criterion Exn Person}
    {keep : Person → Bool} (hfirst : present lib db first = [lookup])
    (hsecond : present lib db second = [filter]) (hboth : present lib db both = [lookup, filter])
    (hkeep : filter.keep = .ok keep) :
    BothFound lib db first second both ↔
      ∀ user ∈ returned lookup.lookup, keep user = true ↔ user ∈ returned filter.lookup := by
  simp only [BothFound, Finds, searchUsersBy_eq, hfirst, hsecond, hboth]
  exact mem_answer_pair hkeep

/-! ## Texts -/

/-- The filter and the lookup of a text say the same about a user. -/
def TextCriterion.SameRole (db : DB) (user : Person) : TextCriterion → Prop
  | mail search _ => search <:+: user.email ↔ lower search <:+: key .userMail user.email
  | name search _ => lower search <:+: user.firstName ∨ lower search <:+: user.lastName ↔
      HasName db (fun fullName => lower search <:+: fullName) user

/-- The criteria of a search by a list and a text. -/
theorem present_pair (list : ListCriterion) (text : TextCriterion) :
    present lib db (list.add (text.add {})) = [list.roles db, text.roles lib db] := by
  cases list <;> cases text <;> rfl

/-- The criterion of a search by a list. -/
theorem present_list (list : ListCriterion) :
    present lib db (list.add {}) = [list.roles db] := by
  cases list <;> rfl

/-- The criterion of a search by a text. -/
theorem present_text (text : TextCriterion) :
    present lib db (text.add {}) = [text.roles lib db] := by
  cases text <;> rfl

/-- In every reachable store, a skill or position list together with a mail or name text finds
what both find alone, exactly when for each user found by the list the filter of the text is its
lookup. -/
theorem textRoles_iff (h : Reachable db) {lib : TextLibrary} (hlib : lib.Containing)
    (list : ListCriterion) (text : TextCriterion) (hliteral : IsLiteral text.search) :
    BothFound lib db (list.add {}) (text.add {}) (list.add (text.add {})) ↔
      ∀ user, list.Holds db user → text.SameRole db user := by
  cases text with
  | mail search others =>
      replace hliteral : IsLiteral search := hliteral
      obtain ⟨e, hregex, hmatch⟩ := hlib hliteral
      have hkeep : (byMail lib db (search :: others)).keep = .ok fun user => e user.email := by
        show (lib.regex search >>= fun e => .ok fun user : Person => e user.email) = _
        rw [hregex, ok_bind]
      rw [bothFound_iff (present_list list) (present_text (.mail search others))
        (present_pair list (.mail search others)) hkeep]
      refine forall_congr' fun user => ?_
      rw [mem_lookup_list, mem_lookup_text h]
      refine forall_congr' fun hholds => ?_
      have hrecord := hholds.isRecord h.consistent
      have htyped : e user.email = true ↔ search <:+: user.email := hmatch user.email
      have hlowered : lib.regexMatch (lower search) (key .userMail user.email) = true ↔
          lower search <:+: key .userMail user.email := hlib.regexMatch_iff hliteral.lower
      simp only [TextCriterion.Holds, TextCriterion.SameRole, hrecord, true_and, htyped, hlowered]
  | name search others =>
      replace hliteral : IsLiteral search := hliteral
      obtain ⟨e, hregex, hmatch⟩ := hlib hliteral.lower
      have hkeep : (byName lib db (search :: others)).keep
          = .ok fun user => e user.firstName || e user.lastName := by
        show (lib.regex (lower search) >>= fun e =>
          .ok fun user : Person => e user.firstName || e user.lastName) = _
        rw [hregex, ok_bind]
      rw [bothFound_iff (present_list list) (present_text (.name search others))
        (present_pair list (.name search others)) hkeep]
      refine forall_congr' fun user => ?_
      rw [mem_lookup_list, mem_lookup_text h]
      refine forall_congr' fun hholds => ?_
      simp only [TextCriterion.Holds, TextCriterion.SameRole, Bool.or_eq_true, hmatch,
        lib.regexMatch_of_regex hregex]

/-- Containment of any text, and integers as the numbers. -/
def TextLibrary.containment : TextLibrary where
  regex search := .ok fun subject => decide (search <:+: subject)
  stod text := match Lib.Numeral.scan text with
    | some value => .ok value
    | none => .error (.invalidArgument "stod")

/-- In the library of the samples a text matches what contains it. -/
theorem containing_containment : TextLibrary.containment.Containing :=
  fun _ => ⟨_, rfl, fun _ => decide_eq_true_iff⟩

/-- A user with a mail and a skill. -/
def skilled : Person :=
  { Person.sample ['a'] [['s']] [] with id := 1 }

/-- That user registered. -/
def skilledUser : DB :=
  execAll [.savePerson skilled.serializeMe (-1)]

/-- The user with the skill is found. -/
theorem find_skilled :
    searchUsersBy .containment skilledUser { skill := some [['s']] } = .ok [skilled] := by
  decide

/-- Nobody else has the skill. -/
theorem eq_skilled_of_hasSkills (h : HasSkills skilledUser [['s']] user) : user = skilled := by
  have hlookup : searchBySkill skilledUser [['s']] = .ok [skilled] := by decide
  have hfound := mem_searchBySkill.mpr h
  rw [hlookup, returned_ok] at hfound
  exact List.mem_singleton.mp hfound

/-- What is returned is found. -/
theorem finds_of_eq_ok {criteria : Criteria} {found : List Person}
    (h : searchUsersBy lib db criteria = .ok found) :
      Finds lib db criteria user ↔ user ∈ found := by
  rw [Finds, h, returned_ok]

/-- A mail that is typed with a capital is found alone, but not among the users with a skill. -/
theorem mail_with_capital :
    Reachable skilledUser ∧ IsLiteral ['A'] ∧
      searchUsersBy .containment skilledUser { mail := some [['A']] } = .ok [skilled] ∧
      searchUsersBy .containment skilledUser { skill := some [['s']], mail := some [['A']] }
        = .ok [] ∧
      ¬ BothFound .containment skilledUser { skill := some [['s']] } { mail := some [['A']] }
        { skill := some [['s']], mail := some [['A']] } := by
  have hboth : searchUsersBy .containment skilledUser
      { skill := some [['s']], mail := some [['A']] } = .ok [] := by decide
  have hmail : searchUsersBy .containment skilledUser { mail := some [['A']] }
      = .ok [skilled] := by decide
  have hliteral : IsLiteral ['A'] := by
    intro c hc
    rw [List.mem_singleton.mp hc]
    decide
  refine ⟨reachable_execAll _, hliteral, hmail, hboth, ?_⟩
  intro hagree
  have hfound := (hagree skilled).mpr ⟨(finds_of_eq_ok find_skilled).mpr List.mem_cons_self,
    (finds_of_eq_ok hmail).mpr List.mem_cons_self⟩
  exact List.not_mem_nil ((finds_of_eq_ok hboth).mp hfound)

/-- In small letters the mail is found both ways. -/
theorem textRoles_small :
    BothFound .containment skilledUser { skill := some [['s']] } { mail := some [['a']] }
      { skill := some [['s']], mail := some [['a']] } := by
  have hliteral : IsLiteral ['a'] := by
    intro c hc
    rw [List.mem_singleton.mp hc]
    decide
  refine (textRoles_iff (reachable_execAll [.savePerson skilled.serializeMe (-1)])
    containing_containment (.skill [['s']]) (.mail ['a'] []) hliteral).mpr ?_
  intro user hholds
  obtain rfl := eq_skilled_of_hasSkills hholds
  show ['a'] <:+: skilled.email ↔ lower ['a'] <:+: key .userMail skilled.email
  decide

/-! ## Distances -/

/-- The criterion of a search by distance. -/
theorem present_distance (distanceSearch : List Text) :
    present lib db { distance := some distanceSearch } = [byDistance lib db distanceSearch] := rfl

/-- The criterion of a search by anything else. -/
theorem present_user (criterion : UserCriterion) :
    present lib db (criterion.add {}) = [criterion.roles lib db] := by
  cases criterion with
  | list criterion => exact present_list criterion
  | text criterion => exact present_text criterion

/-- The criteria of a search by both. -/
theorem present_withDistance (criterion : UserCriterion) (distanceSearch : List Text) :
    present lib db (criterion.add { distance := some distanceSearch })
      = [criterion.roles lib db, byDistance lib db distanceSearch] := by
  cases criterion with
  | list criterion => cases criterion <;> rfl
  | text criterion => cases criterion <;> rfl

/-- In every reachable store, a criterion together with a distance finds what both find alone,
exactly when no user found by the criterion lies within the radius one way and outside the other.
-/
theorem distanceRoles_iff (h : Reachable db) (lib : TextLibrary) (criterion : UserCriterion)
    {distanceSearch : List Text} {centre : Location} {radius : Rat}
    (hread : centreAndRadius lib distanceSearch = .ok (centre, radius)) :
    BothFound lib db (criterion.add {}) { distance := some distanceSearch }
        (criterion.add { distance := some distanceSearch }) ↔
      ∀ user, criterion.Holds lib db user →
        (centre.getDistanceFrom user.location ≤ radius ↔
          centre.getDistanceFrom user.location ≤ radius ^ 2) := by
  have hkeep : (byDistance lib db distanceSearch).keep = .ok fun user =>
      ! (radius < centre.getDistanceFrom user.location : Bool) := by
    simp only [byDistance, hread]
    rfl
  rw [bothFound_iff (present_user criterion) (present_distance distanceSearch)
    (present_withDistance criterion distanceSearch) hkeep]
  refine forall_congr' fun user => ?_
  rw [mem_lookup_user h]
  refine forall_congr' fun hholds => ?_
  have hlookup : user ∈ returned (byDistance lib db distanceSearch).lookup ↔
      IsRecord db user ∧ centre.getDistanceFrom user.location ≤ radius ^ 2 :=
    mem_searchByDistance h.consistent h.laid hread
  have hrecord := hholds.isRecord h.consistent
  rw [hlookup, Bool.not_eq_true', decide_eq_false_iff_not, not_lt]
  simp only [hrecord, true_and]

/-- At the distance two from the centre, a radius of two finds a user alone, but not among the
users with a skill. -/
theorem distance_of_two :
    Reachable skilledUser ∧
      centreAndRadius .containment [['2'], ['0'], ['2']]
        = .ok ({ latitude := 2, longitude := 0 }, 2) ∧
      searchUsersBy .containment skilledUser { distance := some [['2'], ['0'], ['2']] }
        = .ok [skilled] ∧
      searchUsersBy .containment skilledUser
        { skill := some [['s']], distance := some [['2'], ['0'], ['2']] } = .ok [] ∧
      ¬ BothFound .containment skilledUser { skill := some [['s']] }
        { distance := some [['2'], ['0'], ['2']] }
        { skill := some [['s']], distance := some [['2'], ['0'], ['2']] } := by
  have hboth : searchUsersBy .containment skilledUser
      { skill := some [['s']], distance := some [['2'], ['0'], ['2']] } = .ok [] := by
    decide +kernel
  have hdistance : searchUsersBy .containment skilledUser
      { distance := some [['2'], ['0'], ['2']] } = .ok [skilled] := by decide +kernel
  refine ⟨reachable_execAll _, by decide, hdistance, hboth, ?_⟩
  intro hagree
  have hfound := (hagree skilled).mpr ⟨(finds_of_eq_ok find_skilled).mpr List.mem_cons_self,
    (finds_of_eq_ok hdistance).mpr List.mem_cons_self⟩
  exact List.not_mem_nil ((finds_of_eq_ok hboth).mp hfound)

/-- A radius of four takes the user in both ways. -/
theorem distanceRoles_four :
    BothFound .containment skilledUser { skill := some [['s']] }
      { distance := some [['2'], ['0'], ['4']] }
      { skill := some [['s']], distance := some [['2'], ['0'], ['4']] } := by
  have hread : centreAndRadius .containment [['2'], ['0'], ['4']]
      = .ok ({ latitude := 2, longitude := 0 }, 4) := by decide
  refine (distanceRoles_iff (reachable_execAll [.savePerson skilled.serializeMe (-1)])
    .containment
    (.list (.skill [['s']])) hread).mpr ?_
  intro user hholds
  obtain rfl := eq_skilled_of_hasSkills hholds
  decide +kernel

end TallerII.PersonManager
