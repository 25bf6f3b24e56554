import TallerII.Handler
import TallerII.SearchUsers
import TallerII.Lib.Occurrence
import TallerII.Lib.Percent

/-!
# Search requests

The app writes a search into the query of a URL, one parameter for each criterion, in the order in
which its `HashMap` yields them. The server decodes the whole query first and then finds each
parameter by a search for its name. `searchValues_iff` says for which requests and orders the
server reads the criteria that the app wrote.
-/

namespace TallerII

open Lib Lib.Delimited Lib.Occurrence

/-! ## The app -/

/-- A `String` of the app, by its characters. -/
abbrev JavaString := List Char

/-- The bytes of a `String` in UTF-8. -/
def utf8 (text : JavaString) : Text :=
  text.flatMap fun c => (String.utf8EncodeChar c).map fun byte => Char.ofNat byte.toNat

/-- `Locacion`, with its coordinates as they are printed. -/
structure Locacion where
  latitude : JavaString
  longitude : JavaString
deriving Repr, DecidableEq

/-- `BusquedaRequest`. -/
structure BusquedaRequest where
  name : Option JavaString := none
  mail : Option JavaString := none
  jobPosition : Option JavaString := none
  skills : Option (List (Option JavaString)) := some []
  distancia : Int32 := 0
deriving Repr, DecidableEq

namespace BusquedaRequest

/-- The loop over the skills: those that are not empty, with commas between them. -/
def sks (skills : List (Option JavaString)) : JavaString :=
  skills.foldl (fun sks sk =>
    match sk with
    | some sk => if sk = [] then sks else appendPiece ',' sks sk
    | none => sks) []

/-- A parameter that is sent unless it is absent or empty. -/
def parametro (query : String) (value : Option JavaString) : List (JavaString × JavaString) :=
  ((value.filter (· ≠ [])).map fun value => (query.toList, value)).toList

/-- A number that is at least 1. -/
def positivo (number : Int32) : Int32 :=
  if number < 1 then 1 else number

/-- The value of the distance, when one is searched for. -/
def porDistancia (request : BusquedaRequest) (loc : Option Locacion) : Option JavaString :=
  if request.distancia > 0 then
    loc.map fun loc => loc.latitude ++ ',' :: loc.longitude ++ ',' :: Numeral.toText
      request.distancia.toInt
  else none

/-- The map of `generarRequestUrl`. -/
def parametros (request : BusquedaRequest) (pageSize pageNumber : Int32) (loc : Option Locacion) :
    List (JavaString × JavaString) :=
  [("pageNumber".toList, Numeral.toText (positivo pageNumber).toInt),
      ("size".toList, Numeral.toText (positivo pageSize).toInt)] ++
    parametro "names" request.name ++ parametro "mails" request.mail ++
    parametro "positions" request.jobPosition ++
    parametro "skills" (request.skills.map sks) ++
    parametro "distance" (request.porDistancia loc)

end BusquedaRequest

/-- The bytes that `Uri.encode` keeps as they are. -/
def isAllowed (byte : Char) : Bool :=
  byte.isAlphanum || "_-!.~'()*".toList.contains byte

/-- The query that `Uri.Builder` makes of parameters appended in order. -/
def queryString (entries : List (JavaString × JavaString)) : Text :=
  encode '&' (entries.map fun (key, value) =>
    Percent.encode isAllowed (utf8 key) ++ '=' :: Percent.encode isAllowed (utf8 value))

/-! ## The server -/

namespace SearchHandler

/-- `uriDecode`. -/
def uriDecode (sSrc : Text) : Text :=
  Percent.decode sSrc

/-- `hasParameter`. -/
def hasParameter (query_params parameter : Text) : Bool :=
  match Handler.find parameter query_params with
  | none => false
  | some found => ! (found + parameter.length + 2 > query_params.length)

/-- `getParameterFromQueryParams`: one character after the name is skipped. -/
def getParameterFromQueryParams (queryParams parameter : Text) : Except Exn Text :=
  match Handler.find parameter queryParams with
  | none => .error (.invalidRequest ("Missing ".toList ++ parameter ++ " parameter".toList))
  | some init_position =>
    .ok ((queryParams.drop (init_position + parameter.length + 1)).takeWhile (· ≠ '&'))

/-- `getSearchByFromQueryParams`. -/
def getSearchByFromQueryParams (query_params parameter : Text) : Except Exn (Option Text) := do
  if hasParameter query_params parameter then
    let parameter_value ← getParameterFromQueryParams query_params parameter
    return if parameter_value = [] then none else some parameter_value
  else return none

/-- A number of the query, with the text for what is not one. -/
def getNumberFromQueryParams (query_params parameter : Text) (details : String) :
    Except Exn Long := do
  let number ← getParameterFromQueryParams query_params parameter
  match stol number with
  | .ok value => .ok value
  | .error _ => .error (.invalidRequest details.toList)

/-- `getPageSizeFromQueryParams`. -/
def getPageSizeFromQueryParams (query_params : Text) : Except Exn Long :=
  getNumberFromQueryParams query_params "size".toList "Size of Page isn't an integer"

/-- `getPageNumberFromQueryParams`. -/
def getPageNumberFromQueryParams (query_params : Text) : Except Exn Long :=
  getNumberFromQueryParams query_params "pageNumber".toList "Page Number isn't an integer"

/-- What `handleGetRequest` reads from the query. -/
structure SearchValues where
  search_value_name : Option Text := none
  search_value_distance : Option Text := none
  search_value_position : Option Text := none
  search_value_skill : Option Text := none
  search_value_mail : Option Text := none
  page_number : Long
  page_size : Long
deriving DecidableEq

/-- The first part of `handleGetRequest`. -/
def searchValues (query_string : Text) : Except Exn SearchValues := do
  let queryParams := uriDecode query_string
  let search_value_name ← getSearchByFromQueryParams queryParams "names".toList
  let search_value_distance ← getSearchByFromQueryParams queryParams "distances".toList
  let search_value_position ← getSearchByFromQueryParams queryParams "positions".toList
  let search_value_skill ← getSearchByFromQueryParams queryParams "skills".toList
  let search_value_mail ← getSearchByFromQueryParams queryParams "mails".toList
  let page_number ← getPageNumberFromQueryParams queryParams
  let page_size ← getPageSizeFromQueryParams queryParams
  return { search_value_name, search_value_distance, search_value_position, search_value_skill,
           search_value_mail, page_number, page_size }

/-- A criterion that is present, in UTF-8. -/
def criterion (value : Option JavaString) : Option Text :=
  (value.filter (· ≠ [])).map utf8

/-- The criteria of a request, as a server that reads it right has them. -/
def expected (request : BusquedaRequest) (pageSize pageNumber : Int32) (loc : Option Locacion) :
    SearchValues :=
  { search_value_name := criterion request.name
    search_value_distance := criterion (request.porDistancia loc)
    search_value_position := criterion request.jobPosition
    search_value_skill := criterion (request.skills.map BusquedaRequest.sks)
    search_value_mail := criterion request.mail
    page_number := (BusquedaRequest.positivo pageNumber).toInt64
    page_size := (BusquedaRequest.positivo pageSize).toInt64 }

/-! ## What decides a parameter -/

/-- The parameters with `=` and `&` between them. -/
def joined (sent : List (Text × Text)) : Text :=
  encode '&' (sent.map fun (key, value) => key ++ '=' :: value)

/-- What follows a parameter when others are sent after it. -/
def following (sent : List (Text × Text)) : Text :=
  if sent = [] then [] else '&' :: joined sent

/-- Behind a name, the value is what stands between the next character and the next `&`. -/
def valueBehind (rest : Text) : Text :=
  (rest.drop 1).takeWhile (· ≠ '&')

/-- The first parameter that carries the name `p`, as its own or inside its value, decides what is
read for `p`. Either it is the parameter `p` with a value that is read as `own` says, or what
happens to stand behind the name is `right`; without such a parameter nothing is read. -/
def Decides (p : Text) (own right : Text → Prop) (unsent : Prop) : List (Text × Text) → Prop
  | [] => unsent
  | (key, value) :: sent =>
    if key = p then own value
    else match behind p value with
      | some rest => right (valueBehind (rest ++ following sent))
      | none => Decides p own right unsent sent

/-- A criterion is decided by its own parameter, with a value without `&`, or by chance. -/
def Kept (sent : List (Text × Text)) (p : String) (value : Option Text) : Prop :=
  Decides p.toList ('&' ∉ ·) (fun found => value = (some found).filter (· ≠ []))
    (value = none) sent

/-- A number is decided by its own parameter, or by chance. -/
def KeptNumber (sent : List (Text × Text)) (p : String) (number : Long) : Prop :=
  Decides p.toList (fun _ => True) (fun found => stol found = .ok number) False sent

/-- Every parameter that the server looks up is decided right. -/
structure Readable (sent : List (Text × Text)) (values : SearchValues) : Prop where
  names : Kept sent "names" values.search_value_name
  distances : Kept sent "distances" values.search_value_distance
  positions : Kept sent "positions" values.search_value_position
  skills : Kept sent "skills" values.search_value_skill
  mails : Kept sent "mails" values.search_value_mail
  pageNumber : KeptNumber sent "pageNumber" values.page_number
  size : KeptNumber sent "size" values.page_size

/-! ## Reading a parameter -/

variable {p : Text}

/-- The first parameter, and those that follow. -/
theorem joined_cons (key value : Text) (sent : List (Text × Text)) :
    joined ((key, value) :: sent) = key ++ '=' :: (value ++ following sent) := by
  cases sent with
  | nil => simp [joined, following]
  | cons next sent =>
      simp only [joined, following, List.map_cons, encode_cons_cons,
        if_neg (List.cons_ne_nil _ _)]
      simp

/-- What stands behind a name in the parameters. -/
theorem behind_joined (hne : p ≠ []) (heq : '=' ∉ p) (hamp : '&' ∉ p) {key value : Text}
    (hkey : key = p ∨ behind p key = none) (sent : List (Text × Text)) :
    behind p (joined ((key, value) :: sent)) =
      if key = p then some ('=' :: (value ++ following sent))
      else match behind p value with
        | some rest => some (rest ++ following sent)
        | none => behind p (joined sent) := by
  rw [joined_cons, behind_append_cons hne heq]
  split
  · rename_i hown
    rw [hown, behind_self hne]
    rfl
  · rename_i hother
    rw [hkey.resolve_left hother, Option.map_none, Option.none_or]
    cases sent with
    | nil =>
        have hnil : behind p (joined []) = none := if_neg hne
        simp only [following, if_pos, List.append_nil, hnil]
        cases behind p value <;> rfl
    | cons next sent =>
        simp only [following, if_neg (List.cons_ne_nil _ _), behind_append_cons hne hamp]
        cases behind p value <;> rfl

/-- Every fact about what is read for a name is decided by the first parameter that carries it. -/
theorem decides_iff (good : Option Text → Prop) {own : Text → Prop} (hne : p ≠ []) (heq : '=' ∉ p)
    (hamp : '&' ∉ p) {sent : List (Text × Text)}
    (hkeys : ∀ key value, (key, value) ∈ sent → key = p ∨ behind p key = none)
    (hown : ∀ value others, (p, value) ∈ sent →
      (good (some (valueBehind ('=' :: (value ++ following others)))) ↔ own value)) :
    good ((behind p (joined sent)).map valueBehind) ↔
      Decides p own (fun found => good (some found)) (good none) sent := by
  induction sent with
  | nil =>
      have hnil : behind p (joined []) = none := if_neg hne
      rw [hnil]
      rfl
  | cons entry sent ih =>
      obtain ⟨key, value⟩ := entry
      have hrest := ih (fun key value hmem => hkeys key value (List.mem_cons_of_mem _ hmem))
        (fun value others hmem => hown value others (List.mem_cons_of_mem _ hmem))
      rw [behind_joined hne heq hamp (hkeys key value List.mem_cons_self), Decides]
      split
      · rename_i hkey
        subst hkey
        exact hown value sent List.mem_cons_self
      · cases behind p value with
        | none => exact hrest
        | some rest => exact Iff.rfl

/-- A search for a name, by the position and by what follows. -/
theorem behind_eq_find (p text : Text) :
    behind p text = (Handler.find p text).map fun found => text.drop (found + p.length) := by
  induction text with
  | nil =>
      rw [behind, Handler.find]
      split
      · rename_i hnil
        subst hnil
        rfl
      · rfl
  | cons c text ih =>
      rw [behind, Handler.find]
      split
      · simp
      · rw [ih, Option.map_map]
        congr 1
        funext found
        show text.drop (found + p.length) = (c :: text).drop (found + 1 + p.length)
        rw [Nat.add_right_comm, List.drop_succ_cons]

/-- The value of a parameter, if its name occurs. -/
theorem getParameter_eq (queryParams p : Text) :
    getParameterFromQueryParams queryParams p = match (behind p queryParams).map valueBehind with
      | none => .error (.invalidRequest ("Missing ".toList ++ p ++ " parameter".toList))
      | some value => .ok value := by
  rw [getParameterFromQueryParams, behind_eq_find]
  cases Handler.find p queryParams with
  | none => rfl
  | some found =>
      show _ = Except.ok (((queryParams.drop (found + p.length)).drop 1).takeWhile (· ≠ '&'))
      rw [List.drop_drop]

/-- A criterion: a name with nothing behind it is the same as no name. -/
theorem getSearchBy_eq (queryParams p : Text) :
    getSearchByFromQueryParams queryParams p
      = .ok (((behind p queryParams).map valueBehind).filter (· ≠ [])) := by
  rw [getSearchByFromQueryParams, hasParameter, getParameter_eq, behind_eq_find]
  cases Handler.find p queryParams with
  | none => rfl
  | some found =>
      by_cases hend : found + p.length + 2 > queryParams.length
      · have hnothing : (queryParams.drop (found + p.length)).drop 1 = [] := by
          rw [List.drop_drop]
          exact List.drop_eq_nil_of_le (by omega)
        simp [hend, valueBehind, hnothing, Option.filter, pure, Except.pure]
      · by_cases hempty : valueBehind (queryParams.drop (found + p.length)) = []
        · simp [hend, hempty, Option.filter, pure, Except.pure]
        · simp [hend, hempty, Option.filter, pure, Except.pure]

/-- A number. -/
theorem getNumber_eq_ok {queryParams p : Text} {details : String} {number : Long} :
    getNumberFromQueryParams queryParams p details = .ok number ↔
      match (behind p queryParams).map valueBehind with
      | none => False
      | some found => stol found = .ok number := by
  rw [getNumberFromQueryParams, getParameter_eq]
  cases (behind p queryParams).map valueBehind with
  | none => simp
  | some found =>
      rw [ok_bind]
      cases hstol : stol found with
      | error e => simp [hstol]
      | ok value => simp [hstol]

/-! ## Decoding the query -/

/-- Characters of ASCII are bytes. -/
theorem utf8_ascii {text : JavaString} (h : ∀ c ∈ text, c.toNat < 128) : utf8 text = text := by
  induction text with
  | nil => rfl
  | cons c text ih =>
      obtain ⟨hc, htext⟩ := List.forall_mem_cons.mp h
      have hbyte : (String.utf8EncodeChar c).map (fun byte => Char.ofNat byte.toNat) = [c] := by
        have hvalue : c.val.toNat ≤ 127 := Nat.le_of_lt_succ hc
        have hone : String.utf8EncodeChar c = [UInt8.ofNat c.val.toNat] := if_pos hvalue
        have hsmall : c.val.toNat % 256 = c.val.toNat := Nat.mod_eq_of_lt (by omega)
        rw [hone, List.map_singleton, UInt8.toNat_ofNat', show 2 ^ 8 = 256 from rfl, hsmall]
        exact congrArg (List.cons · []) (Char.ofNat_toNat c)
      rw [utf8, List.flatMap_cons, hbyte]
      exact congrArg (c :: ·) (ih htext)

/-- A text that is not empty has bytes. -/
theorem utf8_ne_nil {text : JavaString} (h : text ≠ []) : utf8 text ≠ [] := by
  cases text with
  | nil => exact absurd rfl h
  | cons c text => simp [utf8, String.utf8EncodeChar_ne_nil]

/-- A byte of a character that is not of ASCII is not one of ASCII. -/
theorem toNat_of_mem_utf8EncodeChar {c : Char} {byte : UInt8}
    (hbyte : byte ∈ String.utf8EncodeChar c) (hascii : byte.toNat < 128) :
      byte.toNat = c.toNat := by
  have hbytes (value : Nat) (h : byte = UInt8.ofNat value) : byte.toNat = value % 256 := by
    rw [h, UInt8.toNat_ofNat']
  simp only [String.utf8EncodeChar] at hbyte
  split at hbyte
  · have h := hbytes _ (List.mem_singleton.mp hbyte)
    show _ = c.val.toNat
    omega
  · -- each of the other bytes is at least 128
    exfalso
    split at hbyte
    · simp only [List.mem_cons, List.not_mem_nil, or_false] at hbyte
      rcases hbyte with h | h <;> have h := hbytes _ h <;> omega
    · split at hbyte
      · simp only [List.mem_cons, List.not_mem_nil, or_false] at hbyte
        rcases hbyte with h | h | h <;> have h := hbytes _ h <;> omega
      · simp only [List.mem_cons, List.not_mem_nil, or_false] at hbyte
        rcases hbyte with h | h | h | h <;> have h := hbytes _ h <;> omega

/-- UTF-8 has a character of ASCII where the text has it. -/
theorem mem_utf8_iff {text : JavaString} {c : Char} (hc : c.toNat < 128) :
    c ∈ utf8 text ↔ c ∈ text := by
  constructor
  · intro hmem
    obtain ⟨other, hother, hmem⟩ := List.mem_flatMap.mp hmem
    obtain ⟨byte, hbyte, rfl⟩ := List.mem_map.mp hmem
    have hlt := byte.toNat_lt
    rw [Char.toNat_ofNat, if_pos (Or.inl (by omega))] at hc
    rw [toNat_of_mem_utf8EncodeChar hbyte hc, Char.ofNat_toNat]
    exact hother
  · intro hmem
    have hone : utf8 [c] = [c] := utf8_ascii (by simpa using hc)
    refine List.mem_flatMap.mpr ⟨c, hmem, ?_⟩
    have hself : c ∈ utf8 [c] := by
      rw [hone]
      exact List.mem_singleton_self c
    simpa [utf8] using hself

/-- The characters of UTF-8 are bytes. -/
theorem bytes_utf8 (text : JavaString) : Percent.Bytes (utf8 text) := by
  intro byte hbyte
  obtain ⟨c, -, hmem⟩ := List.mem_flatMap.mp hbyte
  obtain ⟨value, -, rfl⟩ := List.mem_map.mp hmem
  have hlt := value.toNat_lt
  rw [Char.toNat_ofNat, if_pos (Or.inl (by omega))]
  exact hlt

/-- A parameter in UTF-8. -/
def bytes (entry : JavaString × JavaString) : Text × Text :=
  (utf8 entry.1, utf8 entry.2)

/-- The server decodes the query to the parameters as they were before the encoding, with nothing
to tell a separator from a character of a value. -/
theorem uriDecode_queryString (entries : List (JavaString × JavaString)) :
    uriDecode (queryString entries) = joined (entries.map bytes) := by
  have hpercent : isAllowed '%' = false := by decide
  have hdecode : ∀ text rest, Percent.decode (Percent.encode isAllowed (utf8 text) ++ rest)
      = utf8 text ++ Percent.decode rest :=
    fun text rest => Percent.decode_encode_append hpercent (bytes_utf8 text) rest
  have hlast : ∀ text, Percent.decode (Percent.encode isAllowed (utf8 text)) = utf8 text := by
    intro text
    have h := hdecode text []
    rwa [List.append_nil, Percent.decode, List.append_nil] at h
  induction entries with
  | nil => rfl
  | cons entry entries ih =>
      obtain ⟨key, value⟩ := entry
      rw [List.map_cons, bytes, joined_cons]
      cases entries with
      | nil =>
          simp only [uriDecode, queryString, List.map_cons, List.map_nil, encode_singleton,
            following,
            if_pos, List.append_nil]
          rw [hdecode, Percent.decode_cons (by decide), hlast]
      | cons next entries =>
          simp only [uriDecode, queryString, List.map_cons, encode_cons_cons] at ih ⊢
          rw [List.append_assoc, hdecode, List.cons_append, Percent.decode_cons (by decide),
            hdecode,
            Percent.decode_cons (by decide), ih, following, if_neg (List.cons_ne_nil _ _)]

/-! ## The parameters of a request -/

open BusquedaRequest

variable {request : BusquedaRequest} {pageSize pageNumber : Int32} {loc : Option Locacion}
  {entries : List (JavaString × JavaString)}

/-- The names that the app gives to its parameters. -/
def queries : List String :=
  ["pageNumber", "size", "names", "mails", "positions", "skills", "distance"]

/-- The names that the server looks up. -/
def lookups : List String :=
  ["names", "distances", "positions", "skills", "mails", "pageNumber", "size"]

/-- What the app has for each of its parameters. -/
def rows (request : BusquedaRequest) (pageSize pageNumber : Int32) (loc : Option Locacion) :
    List (String × Option JavaString) :=
  [("pageNumber", some (Numeral.toText (positivo pageNumber).toInt)),
    ("size", some (Numeral.toText (positivo pageSize).toInt)), ("names", request.name),
    ("mails", request.mail), ("positions", request.jobPosition),
    ("skills", request.skills.map sks), ("distance", request.porDistancia loc)]

/-- A row is sent when its value is not empty. -/
theorem parametros_eq : parametros request pageSize pageNumber loc
    = (rows request pageSize pageNumber loc).flatMap fun row => parametro row.1 row.2 := by
  have hnumber : ∀ query value, parametro query (some (Numeral.toText value))
      = [(query.toList, Numeral.toText value)] := by
    intro query value
    simp [parametro, Option.filter, Numeral.toText_ne_nil]
  simp [parametros, rows, hnumber]

/-- What is sent is what the request has in one of the rows. -/
theorem row_of_mem (horder : entries.Perm (parametros request pageSize pageNumber loc))
    {key value : Text} (hmem : (key, value) ∈ entries.map bytes) :
    ∃ row ∈ rows request pageSize pageNumber loc, key = row.1.toList ∧
      criterion row.2 = some value := by
  have hascii : (queries.all fun query => query.toList.all (·.toNat < 128)) = true := by decide
  obtain ⟨entry, hentry, hbytes⟩ := List.mem_map.mp hmem
  rw [horder.mem_iff, parametros_eq] at hentry
  obtain ⟨row, hrow, hsent⟩ := List.mem_flatMap.mp hentry
  rw [parametro, Option.mem_toList, Option.map_eq_some_iff] at hsent
  obtain ⟨text, htext, rfl⟩ := hsent
  obtain ⟨rfl, rfl⟩ := Prod.mk.inj hbytes
  refine ⟨row, hrow, ?_, ?_⟩
  · have hquery : row.1 ∈ queries := List.mem_map_of_mem (f := Prod.fst) hrow
    refine utf8_ascii fun c hc => ?_
    simpa using List.all_eq_true.mp (List.all_eq_true.mp hascii _ hquery) c hc
  · rw [criterion, htext]
    rfl

/-- No name that the app uses contains another one that the server looks up. -/
theorem key_of_mem (horder : entries.Perm (parametros request pageSize pageNumber loc))
    {p : String}
    (hp : p ∈ lookups) (key value : Text) (hmem : (key, value) ∈ entries.map bytes) :
    key = p.toList ∨ behind p.toList key = none := by
  have hapart : (lookups.all fun p => queries.all fun query =>
      query.toList = p.toList || (behind p.toList query.toList).isNone) = true := by decide
  obtain ⟨row, hrow, rfl, -⟩ := row_of_mem horder hmem
  have hquery : row.1 ∈ queries := List.mem_map_of_mem (f := Prod.fst) hrow
  simpa using List.all_eq_true.mp (List.all_eq_true.mp hapart p hp) _ hquery

/-- A criterion is not empty. -/
theorem criterion_ne_nil {value : Option JavaString} {text : Text}
    (h : criterion value = some text) :
    text ≠ [] := by
  obtain ⟨found, hfound, rfl⟩ := Option.map_eq_some_iff.mp h
  exact utf8_ne_nil (by simpa using (Option.filter_eq_some_iff.mp hfound).2)

/-- A value is read up to its first `&`. -/
theorem valueBehind_own (value : Text) (others : List (Text × Text)) :
    valueBehind ('=' :: (value ++ following others)) = value.takeWhile (· ≠ '&') := by
  show (value ++ following others).takeWhile (· ≠ '&') = _
  rw [List.takeWhile_append]
  split
  · rename_i hwhole
    have hnothing : (following others).takeWhile (· ≠ '&') = [] := by
      rw [following]
      split <;> rfl
    rw [hnothing, List.append_nil]
    exact (List.takeWhile_prefix _).eq_of_length hwhole |>.symm
  · rfl

/-- A value is taken as a whole when it has no `&`. -/
theorem takeWhile_eq_self {value : Text} : value.takeWhile (· ≠ '&') = value ↔ '&' ∉ value := by
  rw [List.takeWhile_eq_self_iff]
  constructor
  · intro h hmem
    simpa using h _ hmem
  · intro h c hc
    simp only [decide_eq_true_eq]
    rintro rfl
    exact h hc

/-- A name that is looked up is not empty and has no separators. -/
theorem lookup_plain {p : String} (hp : p ∈ lookups) :
    p.toList ≠ [] ∧ '=' ∉ p.toList ∧ '&' ∉ p.toList := by
  have hplain : (lookups.all fun p => p.toList ≠ [] ∧ '=' ∉ p.toList ∧ '&' ∉ p.toList)
      = true := by
    decide
  exact of_decide_eq_true (List.all_eq_true.mp hplain p hp)

/-- A criterion is read exactly when it is kept. -/
theorem getSearchBy_iff (horder : entries.Perm (parametros request pageSize pageNumber loc))
    {p : String} (hp : p ∈ lookups) {value : Option Text}
    (hrow : ∀ row ∈ rows request pageSize pageNumber loc, row.1 = p → criterion row.2 = value) :
    getSearchByFromQueryParams (joined (entries.map bytes)) p.toList = .ok value ↔
      Kept (entries.map bytes) p value := by
  obtain ⟨hne, heq, hamp⟩ := lookup_plain hp
  rw [getSearchBy_eq, Except.ok.injEq, eq_comm]
  refine decides_iff (fun found => value = found.filter (· ≠ [])) hne heq hamp
    (key_of_mem horder hp) ?_
  intro text others hmem
  obtain ⟨row, hmem, hquery, htext⟩ := row_of_mem horder hmem
  obtain rfl : criterion row.2 = value := hrow row hmem (String.toList_injective hquery).symm
  have hfilter : ∀ found, some text = (some found).filter (· ≠ []) ↔ text = found := by
    intro found
    rw [eq_comm, Option.filter_eq_some_iff, Option.some.injEq, eq_comm]
    exact and_iff_left (by simpa using criterion_ne_nil htext)
  rw [htext, hfilter, valueBehind_own, eq_comm]
  exact takeWhile_eq_self

/-- A number is read exactly when it is kept. -/
theorem getNumber_iff (horder : entries.Perm (parametros request pageSize pageNumber loc))
    {p : String} (hp : p ∈ lookups) {number : Int32} (details : String)
    (hrow : ∀ row ∈ rows request pageSize pageNumber loc, row.1 = p →
      row.2 = some (Numeral.toText number.toInt)) :
    getNumberFromQueryParams (joined (entries.map bytes)) p.toList details = .ok number.toInt64 ↔
      KeptNumber (entries.map bytes) p number.toInt64 := by
  obtain ⟨hne, heq, hamp⟩ := lookup_plain hp
  rw [getNumber_eq_ok]
  refine decides_iff (fun found => match found with
    | none => False
    | some found => stol found = .ok number.toInt64) hne heq hamp (key_of_mem horder hp) ?_
  intro text others hmem
  obtain ⟨row, hmem, hquery, htext⟩ := row_of_mem horder hmem
  have hnumeral := hrow row hmem (String.toList_injective hquery).symm
  have hascii : utf8 (Numeral.toText number.toInt) = Numeral.toText number.toInt := by
    refine utf8_ascii fun c hc => ?_
    rcases Numeral.mem_toText hc with rfl | hdigit
    · decide
    · have hle : c.val ≤ 57 := by
        simp only [Char.isDigit, Bool.and_eq_true, decide_eq_true_eq] at hdigit
        exact hdigit.2
      exact Nat.lt_of_le_of_lt hle (by decide)
  obtain rfl : text = Numeral.toText number.toInt := by
    rw [hnumeral, criterion, Option.map_eq_some_iff] at htext
    obtain ⟨found, hfound, rfl⟩ := htext
    obtain rfl := Option.some.inj (Option.filter_eq_some_iff.mp hfound).1
    exact hascii
  have hfree : '&' ∉ Numeral.toText number.toInt :=
    Numeral.not_mem_toText (by decide) (by decide) _
  rw [valueBehind_own, takeWhile_eq_self.mpr hfree, iff_true]
  have hlong := stol_toString number.toInt64
  rwa [toString, Int32.toInt_toInt64] at hlong

/-! ## Names that no other value contains -/

/-- When no other value contains a name, only its own parameter decides. -/
theorem decides_of_apart {own right : Text → Prop} {unsent : Prop} {sent : List (Text × Text)}
    (hapart : ∀ entry ∈ sent, entry.1 = p ∨ behind p entry.2 = none) :
    Decides p own right unsent sent ↔
      match sent.find? (·.1 = p) with
      | some entry => own entry.2
      | none => unsent := by
  induction sent with
  | nil => exact Iff.rfl
  | cons entry sent ih =>
      obtain ⟨key, value⟩ := entry
      have hrest := ih fun entry hmem => hapart entry (List.mem_cons_of_mem _ hmem)
      by_cases hkey : key = p
      · simp [Decides, hkey]
      · have hvalue := (hapart _ List.mem_cons_self).resolve_left hkey
        rw [Decides, if_neg hkey, hvalue, List.find?_cons_of_neg (by simpa using hkey)]
        exact hrest

/-- What the request has in a row is sent. -/
theorem mem_of_row (horder : entries.Perm (parametros request pageSize pageNumber loc))
    {row : String × Option JavaString} (hrow : row ∈ rows request pageSize pageNumber loc)
    {value : Text} (hvalue : criterion row.2 = some value) :
    (row.1.toList, value) ∈ entries.map bytes := by
  have hascii : (queries.all fun query => query.toList.all (·.toNat < 128)) = true := by decide
  have hquery : row.1 ∈ queries := List.mem_map_of_mem (f := Prod.fst) hrow
  obtain ⟨text, htext, rfl⟩ := Option.map_eq_some_iff.mp hvalue
  refine List.mem_map.mpr ⟨(row.1.toList, text), ?_, ?_⟩
  · rw [horder.mem_iff, parametros_eq]
    refine List.mem_flatMap.mpr ⟨row, hrow, ?_⟩
    rw [parametro, htext]
    exact List.mem_singleton_self _
  · refine Prod.ext (utf8_ascii fun c hc => ?_) rfl
    simpa using List.all_eq_true.mp (List.all_eq_true.mp hascii _ hquery) c hc

/-- The names that are looked up occur in no value but that of the same name. -/
def Apart (sent : List (Text × Text)) : Prop :=
  ∀ entry ∈ sent, ∀ p ∈ lookups, entry.1 = p.toList ∨ ¬ p.toList <:+: entry.2

/-- A criterion under a name that the app uses is kept when no value has a `&` and the names are
apart. -/
theorem kept_of_apart (horder : entries.Perm (parametros request pageSize pageNumber loc))
    (hapart : Apart (entries.map bytes)) (hamp : ∀ entry ∈ entries.map bytes, '&' ∉ entry.2)
    {query : String} {value : Option JavaString} (hlookup : query ∈ lookups)
    (hrow : (query, value) ∈ rows request pageSize pageNumber loc) :
    Kept (entries.map bytes) query (criterion value) := by
  rw [Kept, decides_of_apart fun entry hentry =>
    (hapart entry hentry query hlookup).imp_right behind_eq_none]
  cases hfind : (entries.map bytes).find? (·.1 = query.toList) with
  | some entry => exact hamp entry (List.mem_of_find?_eq_some hfind)
  | none =>
      cases hvalue : criterion value with
      | none => rfl
      | some text =>
          have hsent := List.find?_eq_none.mp hfind _ (mem_of_row horder hrow hvalue)
          exact absurd (decide_eq_true rfl) hsent

/-- A name that the app does not use is read as no criterion. -/
theorem not_kept_of_apart (horder : entries.Perm (parametros request pageSize pageNumber loc))
    (hapart : Apart (entries.map bytes)) {query : String} (hlookup : query ∈ lookups)
    (hother : query ∉ queries) {value : Text} :
      ¬ Kept (entries.map bytes) query (some value) := by
  rw [Kept, decides_of_apart fun entry hentry =>
    (hapart entry hentry query hlookup).imp_right behind_eq_none]
  have hnone : (entries.map bytes).find? (·.1 = query.toList) = none := by
    refine List.find?_eq_none.mpr fun entry hentry hkey => ?_
    obtain ⟨row, hrow, hquery, -⟩ := row_of_mem horder hentry
    have hname := String.toList_injective ((of_decide_eq_true hkey).symm.trans hquery)
    have hqueries : row.1 ∈ queries := List.mem_map_of_mem (f := Prod.fst) hrow
    exact hother (hname ▸ hqueries)
  rw [hnone]
  exact Option.some_ne_none value

/-- A number is kept when the names are apart. -/
theorem keptNumber_of_apart (horder : entries.Perm (parametros request pageSize pageNumber loc))
    (hapart : Apart (entries.map bytes)) {query : String} (hlookup : query ∈ lookups)
    {value : Int}
    (hrow : (query, some (Numeral.toText value)) ∈ rows request pageSize pageNumber loc)
    (number : Long) : KeptNumber (entries.map bytes) query number := by
  rw [KeptNumber, decides_of_apart fun entry hentry =>
    (hapart entry hentry query hlookup).imp_right behind_eq_none]
  cases hfind : (entries.map bytes).find? (·.1 = query.toList) with
  | some entry => trivial
  | none =>
      have hsent := mem_of_row horder hrow
        (show criterion (some (Numeral.toText value)) = some (utf8 (Numeral.toText value)) by
          simp [criterion, Option.filter, Numeral.toText_ne_nil])
      exact absurd (decide_eq_true rfl) (List.find?_eq_none.mp hfind _ hsent)

/-- A request without a distance is read right when no value has a `&` and the names that the
server looks up occur in no value but that of the same name. -/
theorem readable_of_apart (horder : entries.Perm (parametros request pageSize pageNumber loc))
    (hdistance : criterion (request.porDistancia loc) = none) (hapart : Apart (entries.map bytes))
    (hamp : ∀ entry ∈ entries.map bytes, '&' ∉ entry.2) :
    Readable (entries.map bytes) (expected request pageSize pageNumber loc) where
  names := kept_of_apart horder hapart hamp (by decide) (by simp [rows])
  distances := by
    rw [Kept, decides_of_apart fun entry hentry =>
      (hapart entry hentry "distances" (by decide)).imp_right behind_eq_none]
    split
    · rename_i entry hfind
      exact hamp entry (List.mem_of_find?_eq_some hfind)
    · exact hdistance
  positions := kept_of_apart horder hapart hamp (by decide) (by simp [rows])
  skills := kept_of_apart horder hapart hamp (by decide) (by simp [rows])
  mails := kept_of_apart horder hapart hamp (by decide) (by simp [rows])
  pageNumber := keptNumber_of_apart horder hapart (by decide) List.mem_cons_self _
  size := keptNumber_of_apart horder hapart (by decide)
    (List.mem_cons_of_mem _ List.mem_cons_self) _

/-- The server reads the criteria and the page of a request, and nothing else, exactly when every
parameter that it looks up is decided right by what is sent, in the order in which it is sent. -/
theorem searchValues_iff (horder : entries.Perm (parametros request pageSize pageNumber loc)) :
    searchValues (queryString entries) = .ok (expected request pageSize pageNumber loc) ↔
      Readable (entries.map bytes) (expected request pageSize pageNumber loc) := by
  have hnames := @getSearchBy_iff _ _ _ _ _ horder "names" (by decide) (criterion request.name)
    (by simp [rows])
  have hdistances := @getSearchBy_iff _ _ _ _ _ horder "distances" (by decide)
    (criterion (request.porDistancia loc)) (by simp [rows])
  have hpositions := @getSearchBy_iff _ _ _ _ _ horder "positions" (by decide)
    (criterion request.jobPosition) (by simp [rows])
  have hskills := @getSearchBy_iff _ _ _ _ _ horder "skills" (by decide)
    (criterion (request.skills.map sks)) (by simp [rows])
  have hmails := @getSearchBy_iff _ _ _ _ _ horder "mails" (by decide) (criterion request.mail)
    (by simp [rows])
  have hnumber := @getNumber_iff _ _ _ _ _ horder "pageNumber" (by decide) (positivo pageNumber)
    "Page Number isn't an integer" (by simp [rows])
  have hsize := @getNumber_iff _ _ _ _ _ horder "size" (by decide) (positivo pageSize)
    "Size of Page isn't an integer" (by simp [rows])
  simp only [searchValues, uriDecode_queryString, bind_eq_ok]
  constructor
  · rintro ⟨name, hname, distance, hdistance, position, hposition, skill, hskill, mail, hmail,
      page,
      hpage, size, hpagesize, hvalues⟩
    cases hvalues
    exact ⟨hnames.mp hname, hdistances.mp hdistance, hpositions.mp hposition, hskills.mp hskill,
      hmails.mp hmail, hnumber.mp hpage, hsize.mp hpagesize⟩
  · intro h
    exact ⟨_, hnames.mpr h.names, _, hdistances.mpr h.distances, _, hpositions.mpr h.positions, _,
      hskills.mpr h.skills, _, hmails.mpr h.mails, _, hnumber.mpr h.pageNumber, _,
      hsize.mpr h.size,
      rfl⟩

/-- A search by name arrives, its parameters in another order than they were put. -/
theorem searchValues_by_name :
    searchValues (queryString [("names".toList, "ana".toList), ("size".toList, "20".toList),
        ("pageNumber".toList, "1".toList)])
      = .ok (expected { name := some "ana".toList } 20 1 none) := by
  have horder : [("names".toList, "ana".toList), ("size".toList, "20".toList),
      ("pageNumber".toList, "1".toList)].Perm
        (parametros { name := some "ana".toList } 20 1 none) := by
    decide +kernel
  refine (searchValues_iff horder).mpr (readable_of_apart horder rfl ?_ ?_)
  · unfold Apart
    decide +kernel
  · decide +kernel

/-- The app sends a distance as `distance` and the server looks `distances` up: it takes the
request for one without criteria. -/
theorem distance_not_read :
    searchValues
      (queryString (parametros { distancia := 5 } 20 1 (some ⟨"0.0".toList, "0.0".toList⟩)))
      ≠ .ok (expected { distancia := 5 } 20 1 (some ⟨"0.0".toList, "0.0".toList⟩)) := by
  have hread : searchValues (queryString (parametros { distancia := 5 } 20 1
      (some ⟨"0.0".toList, "0.0".toList⟩))) = .ok { page_number := 1, page_size := 20 } := by
    decide +kernel
  rw [hread]
  decide +kernel

end SearchHandler

end TallerII
