import Mathlib

/-!
# The list of search results

`UserListActivity` asks for the results of a search page by page. What it remembers of a response
is how many results there are, `cantResultados`, and how many users it waits for before it shows
them, `mExpectedListSize`. Without a count in the metadata both come from the size of one page, so
that the second page is never asked for: `reachable_iff` says that every result can be reached
when they fit in one page, and only then.
-/

namespace TallerII.UserListActivity

/-- `PAGE_SIZE`. -/
def pageSize : Int32 := 20

/-- `MAX_RESULTADOS`. -/
def maxResultados : Int32 := 100

/-- What the list needs of a `User`. -/
structure User where
  id : Int64
  cantRecomendaciones : Int64
deriving Repr, DecidableEq

/-- `ResponseMetadata`. -/
structure ResponseMetadata where
  count : Int64 := 0
  totalCount : Int64 := 0

/-- `BusquedaResponse`. A user in the list can be null. -/
structure BusquedaResponse where
  users : List (Option User)
  metadata : Option ResponseMetadata

/-- The fields of the activity. -/
structure State where
  mExpectedListSize : Int32 := 20
  cantResultados : Int32 := maxResultados
  /-- `mBusquedaReq` is there. -/
  mBusquedaReq : Bool := true
  mUserArray : List User := []
  /-- The users that were handed to `mUserArrayAdapter`. -/
  mUserArrayAdapter : List User := []
  /-- `mEndlessScrollListener` is there. -/
  mEndlessScrollListener : Bool := true

/-! ## The activity -/

/-- `cargarPageDeUsuarios`: its result and the number of the page that it asks for. The line that
would turn the listener off is commented out, and the `if` before it guards the `return`. -/
def cargarPageDeUsuarios (state : State) (pageNumber : Int32) (forzarCarga : Bool) :
    Bool × Option Int32 :=
  if ! state.mBusquedaReq then (false, none)
  else if (! forzarCarga && pageNumber * pageSize ≥ state.cantResultados) &&
      state.mEndlessScrollListener then (false, none)
  else (true, some (pageNumber + 1))

/-- `ordenarPorPopularidad`. -/
def ordenarPorPopularidad (lista : List User) : List User :=
  lista.mergeSort fun u1 u2 => u2.cantRecomendaciones ≤ u1.cantRecomendaciones

/-- The users are shown when there are as many as expected. -/
def mostrar (state : State) : State :=
  if state.mExpectedListSize.toInt ≤ state.mUserArray.length then
    { state with
      mUserArray := []
      mUserArrayAdapter := state.mUserArrayAdapter ++ ordenarPorPopularidad state.mUserArray }
  else state

/-- `agregarResultado`. -/
def agregarResultado (state : State) (user : Option User) : State :=
  mostrar (match user with
    | none => { state with mExpectedListSize := state.mExpectedListSize - 1 }
    | some user => { state with mUserArray := state.mUserArray ++ [user] })

/-- The loop of `onResponse`, which passes over the users that are null. -/
def agregarTodos (state : State) (users : List (Option User)) : State :=
  (users.filterMap id).foldl (fun state user => agregarResultado state (some user)) state

/-- `cant` in `onResponse`. -/
def cantOf (metadata : Option ResponseMetadata) : Int32 :=
  match metadata with
  | none => pageSize
  | some { count, totalCount } =>
    if totalCount = 0 then 0
    else if count.toInt32 = 0 then
      if totalCount < pageSize.toInt64 then totalCount.toInt32 else pageSize
    else count.toInt32

/-- The limits that `onResponse` sets. -/
def limited (state : State) (cant : Int32) : State :=
  { state with
    cantResultados := if cant < maxResultados then cant else maxResultados
    mExpectedListSize := if cant < state.mExpectedListSize then
      cant else state.mExpectedListSize }

/-- `onResponse`. A response that is not one leaves the list as it is. -/
def onResponse (state : State) (response : Option BusquedaResponse) : State :=
  match response with
  | none => state
  | some busqResponse =>
    let next := limited state (cantOf busqResponse.metadata)
    if next.mExpectedListSize = 0 then next
    else agregarTodos next busqResponse.users

/-! ## What is handed to the adapter -/

/-- Sorting keeps the users. -/
theorem perm_ordenarPorPopularidad (lista : List User) :
    (ordenarPorPopularidad lista).Perm lista :=
  List.mergeSort_perm lista _

/-- What stays as it is while users are added. -/
structure SameSettings (state next : State) : Prop where
  mExpectedListSize : next.mExpectedListSize = state.mExpectedListSize
  cantResultados : next.cantResultados = state.cantResultados
  mEndlessScrollListener : next.mEndlessScrollListener = state.mEndlessScrollListener

/-- A user is put behind those that wait. -/
theorem agregarResultado_some (state : State) (user : User) :
    agregarResultado state (some user)
      = mostrar { state with mUserArray := state.mUserArray ++ [user] } := rfl

/-- Adding a user leaves the limits. -/
theorem sameSettings_agregarResultado (state : State) (user : User) :
    SameSettings state (agregarResultado state (some user)) := by
  rw [agregarResultado_some, mostrar]
  split <;> exact ⟨rfl, rfl, rfl⟩

/-- Two changes that leave the limits. -/
theorem SameSettings.trans {state between next : State} (hfirst : SameSettings state between)
    (hsecond : SameSettings between next) : SameSettings state next :=
  ⟨hsecond.1.trans hfirst.1, hsecond.2.trans hfirst.2, hsecond.3.trans hfirst.3⟩

/-- Adding all users of a page leaves the limits. -/
theorem sameSettings_agregarTodos (state : State) (users : List (Option User)) :
    SameSettings state (agregarTodos state users) := by
  unfold agregarTodos
  induction users.filterMap id generalizing state with
  | nil => exact ⟨rfl, rfl, rfl⟩
  | cons user found ih => exact (sameSettings_agregarResultado state user).trans (ih _)

/-- A user that is added waits or is handed over, with those that waited. -/
theorem perm_agregarResultado (state : State) (user : User) :
    ((agregarResultado state (some user)).mUserArrayAdapter ++
        (agregarResultado state (some user)).mUserArray).Perm
      (state.mUserArrayAdapter ++ (state.mUserArray ++ [user])) := by
  rw [agregarResultado_some, mostrar]
  split
  · rw [List.append_nil]
    exact (perm_ordenarPorPopularidad _).append_left _
  · exact List.Perm.refl _

/-- Every user that is there is handed over once or waits. -/
theorem perm_agregarTodos (state : State) (users : List (Option User)) :
    ((agregarTodos state users).mUserArrayAdapter ++ (agregarTodos state users).mUserArray).Perm
      (state.mUserArrayAdapter ++ (state.mUserArray ++ users.filterMap id)) := by
  unfold agregarTodos
  induction users.filterMap id generalizing state with
  | nil => simp
  | cons user found ih =>
      refine (ih (agregarResultado state (some user))).trans ?_
      simpa using (perm_agregarResultado state user).append_right found

/-- How many users wait: those that do not fill up the expected size. -/
theorem length_agregarTodos {state : State} {size : Nat}
    (hsize : state.mExpectedListSize.toInt = size) (hpos : 0 < size)
    (hwaiting : state.mUserArray.length < size) (users : List (Option User)) :
    (agregarTodos state users).mUserArray.length
      = (state.mUserArray.length + (users.filterMap id).length) % size := by
  unfold agregarTodos
  induction users.filterMap id generalizing state with
  | nil => exact (Nat.mod_eq_of_lt hwaiting).symm
  | cons user found ih =>
      have hexpected : (agregarResultado state (some user)).mExpectedListSize.toInt = size := by
        rw [(sameSettings_agregarResultado state user).mExpectedListSize, hsize]
      have hlength : (agregarResultado state (some user)).mUserArray.length
          = (state.mUserArray.length + 1) % size := by
        rw [agregarResultado_some, mostrar, hsize]
        split
        · rename_i hfull
          rw [List.length_append, List.length_singleton] at hfull
          rw [show state.mUserArray.length + 1 = size by omega, Nat.mod_self, List.length_nil]
        · rename_i hshort
          rw [List.length_append, List.length_singleton] at hshort
          rw [Nat.mod_eq_of_lt (by omega), List.length_append, List.length_singleton]
      have hnext := hlength ▸ Nat.mod_lt (state.mUserArray.length + 1) hpos
      rw [List.foldl_cons, ih hexpected hnext, hlength, Nat.mod_add_mod, List.length_cons]
      congr 1
      omega

/-- The users of a response are all handed to the adapter exactly when their number is a multiple
of the expected size. -/
theorem perm_agregarTodos_iff {state : State} {size : Nat}
    (hsize : state.mExpectedListSize.toInt = size) (hpos : 0 < size)
    (hwaiting : state.mUserArray = []) (users : List (Option User)) :
    (agregarTodos state users).mUserArrayAdapter.Perm
        (state.mUserArrayAdapter ++ users.filterMap id) ↔
      size ∣ (users.filterMap id).length := by
  have hlength := length_agregarTodos hsize hpos (by simpa [hwaiting] using hpos) users
  have hperm := perm_agregarTodos state users
  rw [hwaiting, List.length_nil, Nat.zero_add] at hlength
  rw [hwaiting, List.nil_append] at hperm
  rw [Nat.dvd_iff_mod_eq_zero, ← hlength, List.length_eq_zero_iff]
  constructor
  · intro h
    have hcount := (hperm.trans h.symm).length_eq
    rw [List.length_append] at hcount
    exact List.length_eq_zero_iff.1 (by omega)
  · intro h
    rwa [h, List.append_nil] at hperm

/-! ## The pages of a search -/

/-- The response to a search with a number of results, as the server sends it: no count. -/
def searchResponse (totalCount : Int64) (users : List (Option User)) : Option BusquedaResponse :=
  some { users, metadata := some { totalCount } }

/-- The users of a page of the results, which has as many as are left for it. -/
def IsPage (totalCount : Int64) (pageNumber : Int32) (users : List (Option User)) : Prop :=
  (users.length : Int) = min 20 (totalCount.toInt - 20 * pageNumber.toInt)

/-- The page is asked for, and its users are handed to the adapter once each. -/
def Reaches (state : State) (totalCount : Int64) (pageNumber : Int32) : Prop :=
  cargarPageDeUsuarios state pageNumber false = (true, some (pageNumber + 1)) ∧
    ∀ users, IsPage totalCount pageNumber users →
      (onResponse state (searchResponse totalCount users)).mUserArrayAdapter.Perm
        (state.mUserArrayAdapter ++ users.filterMap id)

/-- What a response leaves of the limits. -/
theorem sameSettings_onResponse (state : State) (response : BusquedaResponse) :
    SameSettings (limited state (cantOf response.metadata))
      (onResponse state (some response)) := by
  simp only [onResponse]
  split
  · exact ⟨rfl, rfl, rfl⟩
  · exact sameSettings_agregarTodos _ _

/-- Without a count, one page is all there is. -/
theorem cantOf_of_many {totalCount : Int64} (hmany : 20 ≤ totalCount) :
    cantOf (some { totalCount }) = pageSize := by
  have hsome : totalCount ≠ 0 := by
    rintro rfl
    exact absurd hmany (by decide)
  have hpage : ¬ totalCount < pageSize.toInt64 := Int64.not_lt.2 hmany
  simp [cantOf, hsome, hpage]

/-- Every page of the results can be reached when there is no page but the first. -/
theorem reachable_iff (state : State) (totalCount : Int64) (users : List (Option User))
    (hlistener : state.mEndlessScrollListener = true) :
    (∀ pageNumber : Int32, 1 ≤ pageNumber.toInt →
        20 * pageNumber.toInt < min totalCount.toInt maxResultados.toInt →
        Reaches (onResponse state (searchResponse totalCount users)) totalCount pageNumber) ↔
      totalCount ≤ 20 := by
  constructor
  · intro h
    by_contra hmany
    have hmany : 20 < totalCount := Int64.not_le.1 hmany
    have hsettings := sameSettings_onResponse state { users, metadata := some { totalCount } }
    have hlimit : (onResponse state (searchResponse totalCount users)).cantResultados
        = pageSize := by
      rw [searchResponse, hsettings.cantResultados, limited,
        cantOf_of_many (Int64.le_of_lt hmany)]
      rfl
    have hstays : (onResponse state (searchResponse totalCount users)).mEndlessScrollListener
        = true := hsettings.mEndlessScrollListener.trans hlistener
    have hsecond : 20 * (1 : Int32).toInt < min totalCount.toInt maxResultados.toInt := by
      have htotal : 20 < totalCount.toInt := Int64.lt_iff_toInt_lt.1 hmany
      have hmax : maxResultados.toInt = 100 := rfl
      have hone : (1 : Int32).toInt = 1 := rfl
      omega
    have hasked := (h 1 (by decide) hsecond).1
    rw [cargarPageDeUsuarios, hlimit, hstays] at hasked
    split at hasked
    · cases hasked
    · rw [if_pos (by decide)] at hasked
      cases hasked
  · intro h pageNumber hfirst hless
    have hsmall : totalCount.toInt ≤ 20 := Int64.le_iff_toInt_le.1 h
    omega

/-- The users of a full page. -/
def fullPage : List (Option User) :=
  (List.range 20).map fun id => some { id := Int64.ofNat id, cantRecomendaciones := 0 }

/-- Behind the full first page of forty-five results there are pages that cannot be reached. -/
theorem reachable_fortyFive :
    ¬ ∀ pageNumber : Int32, 1 ≤ pageNumber.toInt →
      20 * pageNumber.toInt < min (45 : Int64).toInt maxResultados.toInt →
      Reaches (onResponse {} (searchResponse 45 fullPage)) 45 pageNumber := by
  rw [reachable_iff {} 45 fullPage rfl]
  decide

/-- Of forty-five results the second page is not asked for. -/
theorem secondPage_not_asked :
    20 * (1 : Int32).toInt < min (45 : Int64).toInt maxResultados.toInt ∧
      cargarPageDeUsuarios (onResponse {} (searchResponse 45 fullPage)) 1 false
        = (false, none) := by
  decide +kernel

end TallerII.UserListActivity
