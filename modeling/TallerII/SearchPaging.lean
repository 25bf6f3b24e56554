import TallerII.SearchRequest
import TallerII.Lib.Slices

/-!
# Pages of a search

`handleGetRequest` of the search sorts the users found and answers a slice of them. The bounds of
the slice are signed products and sums of two numbers that the client gives. `searchPage_safe_iff`
says for which numbers they can be computed and stay within the result, and `pagesPartition_iff`
when the pages are a partition of the ranking.
-/

namespace TallerII.SearchHandler

open Handler PersonManager

/-! ## Sorting -/

/-- `myfunction`, the order of the ranking. -/
def myfunction (p1 p2 : Person) : Bool :=
  p1.totRecommendations > p2.totRecommendations

/-- Users by non-increasing number of recommendations. -/
def Ranked (users : List Person) : Prop :=
  users.Pairwise fun p1 p2 => myfunction p2 p1 = false

/-- `std::sort` with `myfunction`: some order of the same users, the same one each time. -/
structure Sorting where
  sort : List Person → List Person
  sort_perm : ∀ users, (sort users).Perm users
  sort_ranked : ∀ users, Ranked (sort users)

/-! ## A page -/

/-- The value of a signed operation on `long`s, when it is one. -/
def checked (value : Int) : Except Exn Long :=
  if -2 ^ 63 ≤ value ∧ value < 2 ^ 63 then .ok (Int64.ofInt value) else .error .undefinedBehaviour

/-- The users that the loop from `i` on accesses, for a number of turns. -/
def visit (users : List Person) (i : Int) : Nat → Except Exn (List Person)
  | 0 => .ok []
  | turns + 1 =>
    match if 0 ≤ i then users[i.toNat]? else none with
    | none => .error .undefinedBehaviour
    | some user => do
      let rest ← visit users (i + 1) turns
      return user :: rest

/-- What a page shows: the users of the slice, and how many were found. -/
structure SearchPage where
  users : List Person
  totalCount : Nat
deriving Repr, DecidableEq

/-- The slice of the sorted result. -/
def searchPage (sorting : Sorting) (result : List Person) (page_number page_size : Long) :
    Except Exn SearchPage := do
  let result := sorting.sort result
  let previous ← checked (page_number.toInt - 1)
  let start ← checked (previous.toInt * page_size.toInt)
  let sum ← checked (start.toInt + page_size.toInt)
  let stop := if result.length < (sum.toInt % 2 ^ 64).toNat then
    (result.length : Int) else sum.toInt
  let users ← visit result start.toInt (stop - start.toInt).toNat
  return { users, totalCount := result.length }

/-! ## The response -/

/-- What the response says of a user. -/
def userMinInformation (user : Person) : Json :=
  Json.ofMembers (
    [("first_name", .string user.firstName), ("last_name", .string user.lastName),
      ("id", .ofLong user.id), ("tot_recommendations", .ofInt user.totRecommendations),
      ("mail", .string user.email)] ++
    (user.getCurrentJob.map fun job => ("current_job", job.serializeMe)).toList)

/-- The body of the response: without users there is no member for them. -/
def SearchPage.toJson (page : SearchPage) : Json :=
  Json.ofMembers (
    ("metadata", Json.ofMembers [("total_count", .int page.totalCount)]) ::
    Json.appendedMember "result" (page.users.map userMinInformation))

/-- The values of the criteria, split at the commas; a distance needs three of them. -/
def criteria (values : SearchValues) : Except Exn Criteria :=
  let split (value : Option Text) : Option (List Text) := value.map (Lib.Delimited.getlines ',')
  let distance := split values.search_value_distance
  if distance.any (·.length ≠ 3) then
    .error (.invalidRequest
      "La cantidad de valores para la busqueda por distancia debe ser 3".toList)
  else .ok {
    skill := split values.search_value_skill
    position := split values.search_value_position
    mail := split values.search_value_mail
    name := split values.search_value_name
    distance }

/-- The users that are searched for: all of them without criteria. -/
def search (lib : TextLibrary) (db : DB) (values : SearchValues) (criteria : Criteria) :
    Except Exn (List Person) :=
  if values.search_value_distance = none ∧ values.search_value_skill = none ∧
      values.search_value_name = none ∧ values.search_value_mail = none ∧
      values.search_value_position = none then getAllUsers db
  else searchUsersBy lib db criteria

/-- `handleGetRequest`: what is wrong with the query is answered, what the search throws is not
caught. -/
def handleGetRequest (lib : TextLibrary) (sorting : Sorting) (db : DB) (query_string : Text) :
    Except Exn Response :=
  match searchValues query_string >>= fun values => do return (values, ← criteria values) with
  | .error (.invalidRequest details) => .ok (badRequest details)
  | .error e => .error e
  | .ok (values, criteria) => do
    let result ← search lib db values criteria
    let page ← searchPage sorting result values.page_number values.page_size
    return (({} : Response).setBody page.toJson.toStyledString).setSuccessfulHeader

/-! ## The lists of a request -/

section

open Lib.Delimited BusquedaRequest

variable {request : BusquedaRequest} {pageSize pageNumber : Int32} {loc : Option Locacion}

/-- A text of a request, unless it is absent or empty. -/
def present (value : Option JavaString) : List JavaString :=
  (value.filter (· ≠ [])).toList

/-- The skills that the app writes. -/
def usedSkills (skills : List (Option JavaString)) : List JavaString :=
  skills.reduceOption.filter (· ≠ [])

/-- The texts that are searched for, in UTF-8: no criterion without one. -/
def asked (texts : List JavaString) : Option (List Text) :=
  if texts = [] then none else some (texts.map utf8)

/-- The lists of a request without a distance. -/
def requested (request : BusquedaRequest) : Criteria where
  skill := asked (usedSkills (request.skills.getD []))
  position := asked (present request.jobPosition)
  mail := asked (present request.mail)
  name := asked (present request.name)

/-- The texts that a request searches for. -/
def texts (request : BusquedaRequest) : List JavaString :=
  usedSkills (request.skills.getD []) ++ present request.jobPosition ++ present request.mail ++
    present request.name

/-- No text that is searched for is empty. -/
theorem ne_nil_of_mem_present {value : Option JavaString} {text : JavaString}
    (h : text ∈ present value) : text ≠ [] := by
  have hsome := Option.mem_toList.mp h
  simpa using (Option.filter_eq_some_iff.mp hsome).2

/-- No skill that is written is empty. -/
theorem ne_nil_of_mem_usedSkills {skills : List (Option JavaString)} {text : JavaString}
    (h : text ∈ usedSkills skills) : text ≠ [] := by
  simpa using (List.mem_filter.mp h).2

/-- A loop that skips what is absent or empty goes over the skills that are used. -/
theorem foldl_usedSkills {step : JavaString → Option JavaString → JavaString}
    (hnone : ∀ acc, step acc none = acc) (hempty : ∀ acc, step acc (some []) = acc)
    (hused : ∀ acc text, text ≠ [] → step acc (some text) = appendPiece ',' acc text)
    (skills : List (Option JavaString)) (acc : JavaString) :
    skills.foldl step acc = (usedSkills skills).foldl (appendPiece ',') acc := by
  induction skills generalizing acc with
  | nil => rfl
  | cons skill skills ih =>
      rw [List.foldl_cons]
      cases skill with
      | none =>
          rw [hnone]
          exact ih acc
      | some text =>
          by_cases htext : text = []
          · subst htext
            rw [hempty]
            exact ih acc
          · have hfirst : usedSkills (some text :: skills) = text :: usedSkills skills :=
              List.filter_cons_of_pos (by simpa using htext)
            rw [hused acc text htext, hfirst, List.foldl_cons]
            exact ih _

/-- The loop over the skills writes those that are not empty, with commas between them. -/
theorem sks_eq (skills : List (Option JavaString)) :
    sks skills = encode ',' (usedSkills skills) := by
  have hfull : (usedSkills skills).dropWhile (· = []) = usedSkills skills := by
    rw [List.dropWhile_eq_self_iff]
    intro hlength
    simpa using ne_nil_of_mem_usedSkills (List.getElem_mem hlength)
  calc sks skills = (usedSkills skills).foldl (appendPiece ',') [] :=
        foldl_usedSkills (fun _ => rfl) (fun _ => rfl) (fun _ _ htext => if_neg htext) skills []
    _ = encode ',' (usedSkills skills) := by rw [foldl_appendPiece_nil, hfull]

/-- UTF-8 keeps the commas between the pieces. -/
theorem utf8_encode (pieces : List JavaString) :
    utf8 (encode ',' pieces) = encode ',' (pieces.map utf8) := by
  have hcomma (piece rest : JavaString) : utf8 (piece ++ ',' :: rest)
      = utf8 piece ++ ',' :: utf8 rest := by
    rw [utf8, List.flatMap_append, List.flatMap_cons]
    rfl
  induction pieces with
  | nil => rfl
  | cons first rest ih =>
      cases rest with
      | nil => rw [List.map_singleton, encode_singleton, encode_singleton]
      | cons second rest =>
          rw [encode_cons_cons, hcomma, ih, List.map_cons, List.map_cons, List.map_cons,
            encode_cons_cons]

/-- A text with pieces that are not empty is not empty. -/
theorem encode_eq_nil_iff {pieces : List JavaString} (hne : ∀ piece ∈ pieces, piece ≠ []) :
    encode ',' pieces = [] ↔ pieces = [] := by
  cases pieces with
  | nil => simp
  | cons first rest =>
      have hfirst := hne first List.mem_cons_self
      cases rest with
      | nil => simpa using hfirst
      | cons second rest => simp [encode_cons_cons]

/-- A value is split into the texts it was made of exactly when none of them has a comma. -/
theorem split_criterion_iff {value : Option JavaString} {texts : List JavaString}
    (hne : ∀ text ∈ texts, text ≠ []) (hvalue : value.getD [] = encode ',' texts) :
    (criterion value).map (getlines ',') = asked texts ↔ ∀ text ∈ texts, ',' ∉ text := by
  by_cases hnone : texts = []
  · have hempty : value.filter (· ≠ []) = none := by
      cases value with
      | none => rfl
      | some text =>
          rw [hnone] at hvalue
          have htext : text = [] := hvalue
          simp [htext, Option.filter]
    rw [criterion, hempty, asked, if_pos hnone, hnone]
    simp
  · have hsent : value.filter (· ≠ []) = some (encode ',' texts) := by
      have hfull := mt (encode_eq_nil_iff hne).mp hnone
      cases value with
      | none => exact absurd hvalue.symm hfull
      | some text =>
          have htext : text = encode ',' texts := hvalue
          simp [htext, hfull, Option.filter]
    rw [criterion, hsent, Option.map_some, Option.map_some, asked, if_neg hnone, utf8_encode,
      Option.some_inj]
    constructor
    · intro hsplit text htext hcomma
      have hpiece : utf8 text ∈ getlines ',' (encode ',' (texts.map utf8)) := by
        rw [hsplit]
        exact List.mem_map_of_mem htext
      exact delim_not_mem hpiece ((mem_utf8_iff (by decide)).mpr hcomma)
    · intro hfree
      refine getlines_encode (List.forall_mem_map.mpr fun text htext => ⟨?_, ?_⟩)
      · exact utf8_ne_nil (hne text htext)
      · exact fun hcomma => hfree text htext ((mem_utf8_iff (by decide)).mp hcomma)

/-- The lists that the server searches by are those of a request without a distance exactly when
no text of the request has a comma. -/
theorem criteria_expected_iff (hdistance : criterion (request.porDistancia loc) = none) :
    criteria (expected request pageSize pageNumber loc) = .ok (requested request) ↔
      ∀ text ∈ texts request, ',' ∉ text := by
  have hone (value : Option JavaString) :
      (criterion value).map (getlines ',') = asked (present value) ↔
        ∀ text ∈ present value, ',' ∉ text := by
    by_cases hnone : present value = []
    · refine split_criterion_iff (fun _ => ne_nil_of_mem_present) ?_
      rcases value with _ | text
      · rfl
      · by_cases hempty : text = []
        · rw [hempty]
          rfl
        · simp [present, Option.filter, hempty] at hnone
    · refine split_criterion_iff (fun _ => ne_nil_of_mem_present) ?_
      rcases value with _ | text
      · rfl
      · by_cases hempty : text = []
        · simp [present, Option.filter, hempty] at hnone
        · simp [present, Option.filter, hempty]
  have hskills := @split_criterion_iff (request.skills.map sks) _
    (fun _ => ne_nil_of_mem_usedSkills)
      (show _ = encode ',' (usedSkills (request.skills.getD [])) by
      cases request.skills with
      | none => rfl
      | some skills => exact sks_eq skills)
  have hlists : criteria (expected request pageSize pageNumber loc) = .ok {
      skill := (criterion (request.skills.map sks)).map (getlines ',')
      position := (criterion request.jobPosition).map (getlines ',')
      mail := (criterion request.mail).map (getlines ',')
      name := (criterion request.name).map (getlines ',')
      distance := none } := by
    simp only [criteria, expected, hdistance]
    rfl
  rw [hlists, requested, Except.ok.injEq, Criteria.mk.injEq, hskills, hone, hone, hone]
  simp only [texts, List.forall_mem_append, and_true, and_assoc]

end

/-! ## Slices -/

variable {sorting : Sorting} {result users : List Person} {page_number page_size : Long}

/-- A signed operation has a value when that is a `long`. -/
theorem checked_eq_ok {value : Int} {number : Long} :
    checked value = .ok number ↔ number.toInt = value := by
  have hlow := number.le_toInt
  have hhigh := number.toInt_lt
  rw [checked]
  split
  · rename_i hrange
    rw [Except.ok.injEq, ← Int64.toInt_inj, Int64.toInt_ofInt_of_le (by omega) (by omega)]
    exact eq_comm
  · rename_i hrange
    constructor
    · intro hthrown
      cases hthrown
    · rintro rfl
      exact absurd ⟨hlow, hhigh⟩ hrange

/-- What the loop accesses, when it stays within the users. -/
theorem visit_eq_ok {visited : List Person} {i : Int} {turns : Nat} :
    visit users i turns = .ok visited ↔
      (turns = 0 ∨ 0 ≤ i ∧ i + turns ≤ users.length) ∧
        visited = (users.drop i.toNat).take turns := by
  induction turns generalizing i visited with
  | zero => simp [visit, eq_comm]
  | succ turns ih =>
      by_cases hrange : 0 ≤ i ∧ i < users.length
      · have hlt : i.toNat < users.length := by omega
        have hnext : (i + 1).toNat = i.toNat + 1 := by omega
        have hdrop : users.drop i.toNat = users[i.toNat] :: users.drop (i.toNat + 1) :=
          List.drop_eq_getElem_cons hlt
        simp only [visit, if_pos hrange.1, List.getElem?_eq_getElem hlt, bind_eq_ok, ih, hnext,
          hdrop,
          List.take_succ_cons]
        constructor
        · rintro ⟨rest, ⟨hrest, rfl⟩, hvisited⟩
          cases hvisited
          exact ⟨.inr (by omega), rfl⟩
        · rintro ⟨hrest, rfl⟩
          exact ⟨_, ⟨by omega, rfl⟩, rfl⟩
      · have hnone : (if 0 ≤ i then users[i.toNat]? else none) = none := by
          split
          · exact List.getElem?_eq_none (by omega)
          · rfl
        rw [visit, hnone]
        constructor
        · intro hthrown
          cases hthrown
        · rintro ⟨hrest, -⟩
          omega

/-- The bounds of a page can be computed and its first index is not negative. -/
def Safe (page_number page_size : Long) : Prop :=
  -2 ^ 63 < page_number.toInt ∧
    0 ≤ (page_number.toInt - 1) * page_size.toInt ∧
    (page_number.toInt - 1) * page_size.toInt < 2 ^ 63 ∧
    page_number.toInt * page_size.toInt < 2 ^ 63

/-- Whether a page is safe can be computed. -/
instance (page_number page_size : Long) : Decidable (Safe page_number page_size) :=
  inferInstanceAs (Decidable (_ ∧ _))

/-- An integer in range is a `long`. -/
theorem exists_toInt_eq {value : Int} (hlow : -2 ^ 63 ≤ value) (hhigh : value < 2 ^ 63) :
    ∃ number : Long, number.toInt = value :=
  ⟨Int64.ofInt value, Int64.toInt_ofInt_of_le hlow (by omega)⟩

/-- The index after the last one of a page, for the sum that is computed. -/
def stopAt (count : Nat) (sum : Int) : Int :=
  if count < (sum % 2 ^ 64).toNat then count else sum

/-- A negative sum is compared as a large number. -/
theorem stopAt_eq {count : Nat} (hcount : count < 2 ^ 60) {sum : Int} (hlow : -2 ^ 63 ≤ sum)
    (hhigh : sum < 2 ^ 63) :
    stopAt count sum = if sum < 0 then (count : Int) else min (count : Int) sum := by
  rw [stopAt]
  split <;> split <;> omega

/-- What a page of a result shows. -/
theorem searchPage_eq_ok (hlength : result.length < 2 ^ 60) {page : SearchPage} :
    searchPage sorting result page_number page_size = .ok page ↔
      Safe page_number page_size ∧ page = {
        users :=
          ((sorting.sort result).drop ((page_number.toInt - 1) * page_size.toInt).toNat).take
          (stopAt result.length (page_number.toInt * page_size.toInt)
            - (page_number.toInt - 1) * page_size.toInt).toNat
        totalCount := result.length } := by
  have hcount : (sorting.sort result).length = result.length :=
    (sorting.sort_perm result).length_eq
  have hmul : (page_number.toInt - 1) * page_size.toInt + page_size.toInt
      = page_number.toInt * page_size.toInt := by
    rw [Int.sub_mul, Int.one_mul, Int.sub_add_cancel]
  have hsize := page_size.le_toInt
  have hnumber := page_number.toInt_lt
  have hlow := page_number.le_toInt
  simp only [searchPage, bind_eq_ok, checked_eq_ok, hcount, Safe]
  -- the products are opaque to linear arithmetic: the start and the end of the page get names
  generalize hproduct : (page_number.toInt - 1) * page_size.toInt = product at hmul ⊢
  generalize page_number.toInt * page_size.toInt = last at hmul ⊢
  constructor
  · rintro ⟨previous, hprevious, start, hstart, sum, hsum, shown, hshown, hpage⟩
    rw [hprevious, hproduct] at hstart
    rw [hstart, hmul] at hsum
    have hstartLow := start.le_toInt
    have hstartHigh := start.toInt_lt
    have hsumLow := sum.le_toInt
    have hsumHigh := sum.toInt_lt
    have hpreviousLow := previous.le_toInt
    rw [hstart, hsum] at hshown
    have hstop := stopAt_eq hlength (hsum ▸ hsumLow) (hsum ▸ hsumHigh)
    change visit _ _ (stopAt result.length last - product).toNat = _ at hshown
    obtain ⟨hrange, rfl⟩ := visit_eq_ok.mp hshown
    rw [hcount] at hrange
    have hnonneg : 0 ≤ product := by
      split at hstop <;> omega
    refine ⟨⟨by omega, hnonneg, by omega, by omega⟩, ?_⟩
    exact (Except.ok.inj hpage).symm
  · rintro ⟨⟨hfirst, hnonneg, hhigh, hlast⟩, rfl⟩
    obtain ⟨previous, hprevious⟩ := @exists_toInt_eq (page_number.toInt - 1) (by omega) (by omega)
    obtain ⟨start, hstart⟩ := @exists_toInt_eq product (by omega) hhigh
    obtain ⟨sum, hsum⟩ := @exists_toInt_eq last (by omega) hlast
    have hstop := @stopAt_eq _ hlength last (by omega) hlast
    refine ⟨previous, hprevious, start, ?_, sum, ?_, _, ?_, rfl⟩
    · rw [hstart, hprevious, hproduct]
    · rw [hsum, hstart, hmul]
    · rw [hstart, hsum]
      refine visit_eq_ok.mpr ⟨?_, rfl⟩
      show (stopAt result.length last - product).toNat = 0 ∨ _
      rw [hcount]
      split at hstop <;> omega

/-- The bounds of a page can be computed and every access is within the result exactly when the
first index is not negative and neither the product nor the sum overflows. -/
theorem searchPage_safe_iff (hlength : result.length < 2 ^ 60) :
    (∃ page, searchPage sorting result page_number page_size = .ok page) ↔
      Safe page_number page_size := by
  constructor
  · rintro ⟨page, hpage⟩
    exact ((searchPage_eq_ok hlength).mp hpage).1
  · intro hsafe
    exact ⟨_, (searchPage_eq_ok hlength).mpr ⟨hsafe, rfl⟩⟩

/-- Sorting by merging. -/
def merging : Sorting where
  sort users := users.mergeSort fun p1 p2 => ! myfunction p2 p1
  sort_perm users := List.mergeSort_perm users _
  sort_ranked users := by
    have hsorted := @List.pairwise_mergeSort Person (fun p1 p2 => ! myfunction p2 p1) ?_ ?_ users
    · exact hsorted.imp fun h => by simpa using h
    · intro p1 p2 p3 h12 h23
      simp only [myfunction, Bool.not_eq_true', decide_eq_false_iff_not, gt_iff_lt, Int32.not_lt]
        at h12 h23 ⊢
      exact Int32.le_trans h23 h12
    · intro p1 p2
      simp only [myfunction, Bool.or_eq_true, Bool.not_eq_true', decide_eq_false_iff_not,
        gt_iff_lt,
        Int32.not_lt]
      exact Int32.le_total _ _

/-- Three users, of whom the second one was recommended five times and the last one twice. -/
def threeUsers : List Person :=
  [Person.sample ['a'] [] [], { Person.sample ['b'] [] [] with totRecommendations := 5 },
    { Person.sample ['c'] [] [] with totRecommendations := 2 }]

/-- The second page of three users, two on each. -/
theorem searchPage_threeUsers : ∃ page, searchPage merging threeUsers 2 2 = .ok page :=
  (searchPage_safe_iff (by decide)).mpr (by decide)

/-- Page number 0: the loop begins at a negative index. -/
theorem searchPage_zero : searchPage merging [] 0 1 = .error .undefinedBehaviour := by
  have hsort : merging.sort [] = [] := List.mergeSort_nil
  rw [searchPage, hsort]
  rfl

/-! ## The pages of a result -/

open Lib.Slices

/-- The pages up to the number `last`: those that the result is cut into are together a
permutation of it in the order of the ranking, all but the last of them are full, and every later
page is empty. Each of them has the number of users found. -/
structure PagesPartition (sorting : Sorting) (result : List Person) (page_size last : Long) :
    Prop where
  partition : ∃ pages : List (List Person),
    List.Forall₂ (fun index users => searchPage sorting result (Int64.ofNat (index + 1)) page_size
        = .ok ⟨users, result.length⟩)
      (List.range (sliceCount result.length page_size.toInt.toNat)) pages ∧
    pages.flatten.Perm result ∧ Ranked pages.flatten ∧
    ∀ users ∈ pages.dropLast, users.length = page_size.toInt.toNat
  later : ∀ number : Long, sliceCount result.length page_size.toInt.toNat < number.toInt →
    number.toInt ≤ last.toInt → searchPage sorting result number page_size
      = .ok ⟨[], result.length⟩

/-- A page with a positive number and size is a slice of the ranking. -/
theorem searchPage_slice (hlength : result.length < 2 ^ 60) {index size : Nat}
    (hnumber : page_number.toInt = index + 1) (hsize : page_size.toInt = size)
    (hproduct : (index + 1) * size < 2 ^ 63) :
    searchPage sorting result page_number page_size
      = .ok ⟨slice size (sorting.sort result) index, result.length⟩ := by
  have hcount : (sorting.sort result).length = result.length :=
    (sorting.sort_perm result).length_eq
  have hsum : (index + 1) * size = index * size + size := Nat.succ_mul index size
  have hstart : (page_number.toInt - 1) * page_size.toInt = (index * size : Nat) := by
    rw [hnumber, hsize, Int.add_sub_cancel, Int.natCast_mul]
  have hlast : page_number.toInt * page_size.toInt = ((index + 1) * size : Nat) := by
    rw [hnumber, hsize, Int.natCast_mul]
    rfl
  have hstop := @stopAt_eq _ hlength (((index + 1) * size : Nat) : Int) (by omega) (by omega)
  refine (searchPage_eq_ok hlength).mpr ⟨⟨?_, ?_, ?_, ?_⟩, ?_⟩
  · omega
  · omega
  · omega
  · omega
  · rw [hstart, hlast, slice, Int.toNat_natCast]
    congr 1
    refine (List.take_eq_take_iff).mpr ?_
    rw [List.length_drop, hcount]
    split at hstop <;> omega

/-- A page that is not empty ends less than a page after the result, so nothing overflows. -/
theorem index_fits (hlength : result.length < 2 ^ 60) {index size : Nat} (hpositive : 0 < size)
    (hsmall : size < 2 ^ 63) (hbegins : index * size < result.length) :
    (index + 1) * size < 2 ^ 63 := by
  cases index with
  | zero => omega
  | succ index =>
      have hle : size ≤ (index + 1) * size := Nat.le_mul_of_pos_left size (Nat.succ_pos index)
      rw [Nat.succ_mul]
      omega

/-- The slices of the ranking are what the pages of the result show. -/
theorem forall₂_slices (hlength : result.length < 2 ^ 60) {size : Nat} (hpositive : 0 < size)
    (hsize : page_size.toInt = size) :
    List.Forall₂ (fun index users => searchPage sorting result (Int64.ofNat (index + 1)) page_size
        = .ok ⟨users, result.length⟩)
      (List.range (sliceCount result.length size))
      ((List.range (sliceCount result.length size)).map (slice size (sorting.sort result))) := by
  have hsmall := page_size.toInt_lt
  rw [List.forall₂_map_right_iff, List.forall₂_same]
  intro index hindex
  have hbegins := (lt_sliceCount hpositive).mp (List.mem_range.mp hindex)
  have hfits := index_fits hlength hpositive (by omega) hbegins
  have hle : index + 1 ≤ (index + 1) * size := Nat.le_mul_of_pos_right (index + 1) hpositive
  refine searchPage_slice hlength ?_ hsize hfits
  rw [Int64.toInt_ofNat_of_lt (by omega)]
  rfl

/-- Every slice but the last one is full. -/
theorem length_of_mem_dropLast {size : Nat} (hpositive : 0 < size) {ranking : List Person}
    (husers : users ∈
      ((List.range (sliceCount ranking.length size)).map (slice size ranking)).dropLast) :
    users.length = size := by
  rw [← List.map_dropLast] at husers
  obtain ⟨index, hindex, rfl⟩ := List.mem_map.mp husers
  refine length_slice hpositive ?_
  cases hslices : sliceCount ranking.length size with
  | zero =>
      rw [hslices] at hindex
      cases hindex
  | succ count =>
      rw [hslices, List.range_succ, List.dropLast_concat, List.mem_range] at hindex
      omega

/-- A page after the slices ends at most where the last one does, and shows nothing. -/
theorem searchPage_later (hlength : result.length < 2 ^ 60) {size : Nat} (hpositive : 0 < size)
    (hsize : page_size.toInt = size) {last number : Long}
    (hproduct : last.toInt * page_size.toInt < 2 ^ 63)
    (hnumber : sliceCount result.length size < number.toInt) (hle : number.toInt ≤ last.toInt) :
    searchPage sorting result number page_size = .ok ⟨[], result.length⟩ := by
  have hcount : (sorting.sort result).length = result.length :=
    (sorting.sort_perm result).length_eq
  obtain ⟨index, hindex⟩ := Int.eq_ofNat_of_zero_le (show 0 ≤ number.toInt - 1 by omega)
  have hbeyond := (@lt_sliceCount size result.length index hpositive).not
  have hfits : (index + 1) * size < 2 ^ 63 := by
    have hmul : ((index + 1 : Nat) : Int) * size ≤ last.toInt * size :=
      Int.mul_le_mul_of_nonneg_right (by omega) (by omega)
    have hcast : (((index + 1) * size : Nat) : Int) = ((index + 1 : Nat) : Int) * size :=
      Int.natCast_mul _ _
    rw [hsize] at hproduct
    omega
  rw [searchPage_slice hlength (by omega) hsize hfits, slice, List.drop_eq_nil_of_le (by omega),
    List.take_nil]

/-- The pages partition the ranking exactly when asking for the last one does not overflow. -/
theorem pagesPartition_iff (hlength : result.length < 2 ^ 60) (hsize : 1 ≤ page_size.toInt)
    (last : Long) :
    PagesPartition sorting result page_size last ↔
      (sliceCount result.length page_size.toInt.toNat < last.toInt →
        last.toInt * page_size.toInt < 2 ^ 63) := by
  have hcount : (sorting.sort result).length = result.length :=
    (sorting.sort_perm result).length_eq
  obtain ⟨size, hvalue⟩ := Int.eq_ofNat_of_zero_le (show 0 ≤ page_size.toInt by omega)
  have hpositive : 0 < size := by omega
  have htoNat : page_size.toInt.toNat = size := by rw [hvalue, Int.toNat_natCast]
  constructor
  · -- the last page is asked for, and showing it needs its product
    rintro ⟨-, hlater⟩ hlast
    have hpage := hlater last hlast (Int.le_refl _)
    have hsafe := ((searchPage_eq_ok hlength).mp hpage).1
    exact hsafe.2.2.2
  · intro hproduct
    rw [htoNat] at hproduct
    refine ⟨⟨(List.range (sliceCount (sorting.sort result).length size)).map
      (slice size (sorting.sort result)), ?_, ?_, ?_, ?_⟩, ?_⟩
    · rw [htoNat, hcount]
      exact forall₂_slices hlength hpositive hvalue
    · rw [flatten_slices hpositive]
      exact sorting.sort_perm result
    · rw [flatten_slices hpositive]
      exact sorting.sort_ranked result
    · rw [htoNat]
      exact fun users husers => length_of_mem_dropLast hpositive husers
    · intro number hnumber hle
      rw [htoNat] at hnumber
      exact searchPage_later hlength hpositive hvalue (hproduct (by omega)) hnumber hle

/-- Pages of two out of three users, and an empty third one. -/
theorem pagesPartition_threeUsers : PagesPartition merging threeUsers 2 3 :=
  (pagesPartition_iff (by decide) (by decide) 3).mpr (by decide)

/-- The first index of the third page of this size overflows. -/
theorem hugePages_not_partition : ¬ PagesPartition merging [] 4611686018427387904 3 := by
  intro h
  have hpage := h.later 3 (by decide) (by decide)
  have hsafe := ((searchPage_eq_ok (by decide)).mp hpage).1
  exact absurd hsafe (by decide)

end TallerII.SearchHandler
