import TallerII.MessagesHandler
import TallerII.SearchRequest

/-!
# Ids in queries

`Handler::getParameterFromQueryParams` takes as many characters of the query as the position of
the parameter and the length of its name tell, where the length of the value belongs. A value near
the front of the query is cut off, and one further behind takes some of the next parameter with
it, which `stol` ignores. `readId_eq_ok` gives the number of digits that an id may have where it
stands.
-/

namespace TallerII.QueryIds

open Lib Occurrence
open Handler SearchHandler

/-! ## The place of a parameter -/

/-- How far into the query a parameter stands when others are sent before it. -/
def offset (before : List (Text × Text)) : Nat :=
  (before.map fun entry => entry.1.length + entry.2.length + 2).sum

/-- A parameter in front moves what follows by its length. -/
theorem offset_cons (entry : Text × Text) (before : List (Text × Text)) :
    offset (entry :: before) = entry.1.length + entry.2.length + 2 + offset before := by
  rw [offset, List.map_cons, List.sum_cons]
  rfl

/-- A name that occurs is found with all its characters. -/
theorem find_le {p text : Text} {found : Nat} (h : find p text = some found) :
    found + p.length ≤ text.length := by
  induction text generalizing found with
  | nil =>
      rw [find] at h
      split at h
      · rename_i hnil
        cases h
        rw [hnil]
        exact Nat.le_refl 0
      · cases h
  | cons c text ih =>
      rw [find] at h
      split at h
      · rename_i hprefix
        cases h
        rw [Nat.zero_add]
        exact hprefix.length_le
      · obtain ⟨position, hposition, rfl⟩ := Option.map_eq_some_iff.mp h
        have hle := ih hposition
        rw [List.length_cons]
        omega

/-- The position is as far from the end as what follows the name is long. -/
theorem find_of_behind {p text rest : Text} (h : behind p text = some rest) :
    ∃ found, find p text = some found ∧ found + p.length + rest.length = text.length ∧
      text.drop (found + p.length) = rest := by
  rw [behind_eq_find, Option.map_eq_some_iff] at h
  obtain ⟨found, hfound, rfl⟩ := h
  have hle := find_le hfound
  refine ⟨found, hfound, ?_, rfl⟩
  rw [List.length_drop]
  omega

/-- The name of a parameter: it holds no separator, and a character that no numeral has. -/
structure IsName (p : Text) : Prop where
  heq : '=' ∉ p
  hamp : '&' ∉ p
  letter : ∃ c ∈ p, c ≠ '-' ∧ c.isDigit = false

/-- A name is not empty. -/
theorem IsName.ne_nil {p : Text} (hp : IsName p) : p ≠ [] := by
  obtain ⟨_, hc, -⟩ := hp.letter
  exact List.ne_nil_of_mem hc

/-- A parameter whose name occurs nowhere before it. -/
def Apart (p : Text) (before : List (Text × Text)) : Prop :=
  ∀ entry ∈ before, entry.1 ≠ p ∧ behind p entry.1 = none ∧ behind p entry.2 = none

variable {p value : Text} {before after : List (Text × Text)}

/-- The parameters are not empty around one of them. -/
theorem joined_ne_nil (p value : Text) (before after : List (Text × Text)) :
    before ++ (p, value) :: after ≠ [] := by
  simp

/-- What stands behind the name is the parameter's own value. -/
theorem behind_parameter (hp : IsName p) (hapart : Apart p before) (value : Text)
    (after : List (Text × Text)) :
    behind p (joined (before ++ (p, value) :: after))
      = some ('=' :: (value ++ following after)) := by
  induction before with
  | nil => rw [List.nil_append, behind_joined hp.ne_nil hp.heq hp.hamp (.inl rfl), if_pos rfl]
  | cons entry before ih =>
      obtain ⟨hother, hkey, hvalue⟩ := hapart entry List.mem_cons_self
      have hrest := ih fun entry hentry => hapart entry (List.mem_cons_of_mem _ hentry)
      obtain ⟨key, text⟩ := entry
      rw [List.cons_append, behind_joined hp.ne_nil hp.heq hp.hamp (.inr hkey), if_neg hother,
        hvalue]
      exact hrest

/-- The length of the parameters around one of them. -/
theorem length_joined (p value : Text) (before after : List (Text × Text)) :
    (joined (before ++ (p, value) :: after)).length
      = offset before + p.length + 1 + (value ++ following after).length := by
  induction before with
  | nil =>
      rw [List.nil_append, joined_cons, List.length_append, List.length_cons]
      show _ = 0 + p.length + 1 + (value ++ following after).length
      omega
  | cons entry before ih =>
      obtain ⟨key, text⟩ := entry
      rw [List.cons_append, joined_cons, following, if_neg (joined_ne_nil p value before after),
        offset_cons]
      simp only [List.length_append, List.length_cons] at ih ⊢
      omega

/-- What is taken for the value is as long as the place of the parameter tells. -/
theorem getParameter_parameter (hp : IsName p) (hapart : Apart p before) (hvalue : value ≠ [])
    (after : List (Text × Text)) :
    Handler.getParameterFromQueryParams (joined (before ++ (p, value) :: after)) p
      = .ok ((value ++ following after).take (offset before + p.length + 2)) := by
  obtain ⟨found, hfound, hplace, hrest⟩ :=
    find_of_behind (behind_parameter hp hapart value after)
  have hlength := length_joined p value before after
  have hpositive : 0 < value.length := List.length_pos_iff.mpr hvalue
  rw [List.length_cons] at hplace
  simp only [List.length_append] at hplace hlength
  obtain rfl : found = offset before := by omega
  rw [Handler.getParameterFromQueryParams, hfound]
  dsimp only
  rw [if_neg (by omega), ← List.drop_drop, hrest]
  rfl

/-! ## Reading an id -/

/-- A conversion with another text for its exception gives the same values. -/
theorem numeric_eq_ok {α : Type} {details : String} {result : Except Exn α} {found : α} :
    numeric details result = .ok found ↔ result = .ok found := by
  cases result with
  | ok other => rfl
  | error e => cases e <;> simp [numeric]

/-- Parameters that follow begin with a character that is no digit. -/
theorem following_head (after : List (Text × Text)) :
    ∀ c ∈ (following after).head?, c.isDigit = false := by
  intro c hc
  rw [following] at hc
  split at hc
  · cases hc
  · obtain rfl : '&' = c := Option.some.inj hc
    rfl

/-- An id is read exactly when it has no more digits than are taken. -/
theorem readId_eq_ok (hp : IsName p) (hapart : Apart p before) {id : Long} (hid : 0 ≤ id.toInt)
    (after : List (Text × Text)) :
    getIdFromQueryParams (joined (before ++ (p, toString id) :: after)) p = .ok id ↔
      (toString id).length ≤ offset before + p.length + 2 := by
  have hdigits : toString id ≠ [] := Numeral.toText_ne_nil id.toInt
  rw [getIdFromQueryParams, numeric_eq_ok, bind_eq_ok,
    getParameter_parameter hp hapart hdigits]
  simp only [Except.ok.injEq, exists_eq_left', stol_eq_ok]
  exact Numeral.scan_take_toText hid (following_head after) (by omega)

/-! ## The queries -/

/-- Parameters of a window of messages: any number of `first` and `last`, each a number. -/
def Windowed (sent : List (Text × Text)) : Prop :=
  ∀ entry ∈ sent, (entry.1 = "first".toList ∨ entry.1 = "last".toList) ∧
    ∃ number : Int, entry.2 = Numeral.toText number

/-- A numeral holds no name. -/
theorem behind_toText (hp : IsName p) (number : Int) :
    behind p (Numeral.toText number) = none := by
  obtain ⟨c, hc, hsign, hdigit⟩ := hp.letter
  refine behind_eq_none fun hinfix => ?_
  exact Numeral.not_mem_toText hsign hdigit number (List.IsInfix.subset hinfix hc)

/-- A name occurs in no numbers of other names that do not hold it. -/
theorem apart_numbers (hp : IsName p) (h : ∀ entry ∈ before, entry.1 ≠ p ∧
    behind p entry.1 = none ∧ ∃ number : Int, entry.2 = Numeral.toText number) :
      Apart p before := by
  intro entry hentry
  obtain ⟨hother, hkey, number, hnumber⟩ := h entry hentry
  rw [hnumber]
  exact ⟨hother, hkey, behind_toText hp number⟩

/-- `user` is a name. -/
theorem isName_user : IsName "user".toList := ⟨by decide, by decide, 'u', by decide⟩

/-- `from` is a name. -/
theorem isName_from : IsName "from".toList := ⟨by decide, by decide, 'f', by decide⟩

/-- `to` is a name. -/
theorem isName_to : IsName "to".toList := ⟨by decide, by decide, 't', by decide⟩

/-- Numbers of a window do not hold the name `user`. -/
theorem apart_windowed (h : Windowed before) : Apart "user".toList before := by
  refine apart_numbers isName_user fun entry hentry => ?_
  obtain ⟨hkey, hnumber⟩ := h entry hentry
  rcases hkey with hkey | hkey
  · rw [hkey]
    exact ⟨by decide, by decide, hnumber⟩
  · rw [hkey]
    exact ⟨by decide, by decide, hnumber⟩

/-- There is nothing in front. -/
theorem apart_nil (p : Text) : Apart p [] := by
  intro entry hentry
  cases hentry

variable {a b : Long}

/-- Two ids: the place of the second depends on how long the first is. -/
theorem readId_two_eq_ok {first second : Text} (hfirst : IsName first) (hsecond : IsName second)
    (hother : first ≠ second) (hkey : behind second first = none) (ha : 0 ≤ a.toInt)
    (hb : 0 ≤ b.toInt) :
    (getIdFromQueryParams (joined [(first, toString a), (second, toString b)]) first = .ok a ∧
      getIdFromQueryParams (joined [(first, toString a), (second, toString b)]) second = .ok b) ↔
    (toString a).length ≤ first.length + 2 ∧
      (toString b).length ≤ first.length + (toString a).length + second.length + 4 := by
  have hapart : Apart second [(first, toString a)] := by
    refine apart_numbers hsecond fun entry hentry => ?_
    obtain rfl := List.mem_singleton.mp hentry
    exact ⟨hother, hkey, a.toInt, rfl⟩
  have hplace : offset [(first, toString a)] = first.length + (toString a).length + 2 :=
    offset_cons _ []
  have hreadFirst := readId_eq_ok hfirst (apart_nil first) ha [(second, toString b)]
  have hreadSecond := readId_eq_ok hsecond hapart hb []
  rw [show offset [] = 0 from rfl, Nat.zero_add] at hreadFirst
  rw [hplace] at hreadSecond
  refine and_congr hreadFirst (hreadSecond.trans ?_)
  omega

open RecommendationsHandler

/-- The two ids of a query. -/
def ReadsIds (queryParams : Text) (fromUserId toUserId : Long) : Prop :=
  getFromUserFromQueryParams queryParams = .ok fromUserId ∧
    getToUserFromQueryParams queryParams = .ok toUserId

/-- `from` first: it is cut to six digits, and `to` to ten more than `from` has. -/
theorem readsIds_from_to (ha : 0 ≤ a.toInt) (hb : 0 ≤ b.toInt) :
    ReadsIds (joined [("from".toList, toString a), ("to".toList, toString b)]) a b ↔
      (toString a).length ≤ 6 ∧ (toString b).length ≤ (toString a).length + 10 := by
  have hread := readId_two_eq_ok isName_from isName_to (by decide) (by decide) ha hb
  have hfrom : "from".toList.length = 4 := rfl
  have hto : "to".toList.length = 2 := rfl
  rw [ReadsIds, getFromUserFromQueryParams, getToUserFromQueryParams]
  refine hread.trans ?_
  omega

/-- `to` first: it is cut to four digits, and `from` to ten more than `to` has. -/
theorem readsIds_to_from (ha : 0 ≤ a.toInt) (hb : 0 ≤ b.toInt) :
    ReadsIds (joined [("to".toList, toString b), ("from".toList, toString a)]) a b ↔
      (toString b).length ≤ 4 ∧ (toString a).length ≤ (toString b).length + 10 := by
  have hread := readId_two_eq_ok isName_to isName_from (by decide) (by decide) hb ha
  have hfrom : "from".toList.length = 4 := rfl
  have hto : "to".toList.length = 2 := rfl
  rw [ReadsIds, getFromUserFromQueryParams, getToUserFromQueryParams, and_comm]
  refine hread.trans ?_
  omega

/-- The ids of a query are read as they were sent exactly when they are short enough for the place
where they stand, whatever follows the user. -/
theorem readsIds_iff (ha : 0 ≤ a.toInt) (hb : 0 ≤ b.toInt) (hbefore : Windowed before)
    (after : List (Text × Text)) :
    (ReadsIds (joined [("from".toList, toString a), ("to".toList, toString b)]) a b ↔
      (toString a).length ≤ 6 ∧ (toString b).length ≤ (toString a).length + 10) ∧
    (ReadsIds (joined [("to".toList, toString b), ("from".toList, toString a)]) a b ↔
      (toString b).length ≤ 4 ∧ (toString a).length ≤ (toString b).length + 10) ∧
    (MessagesHandler.getToUserFromQueryParams
        (joined (before ++ ("user".toList, toString a) :: after)) = .ok a ↔
      (toString a).length ≤ offset before + 6) := by
  refine ⟨readsIds_from_to ha hb, readsIds_to_from ha hb, ?_⟩
  exact readId_eq_ok isName_user (apart_windowed hbefore) ha after

/-- The ids 7 and 8, and a window of ten messages before the user. -/
theorem readsIds_small :
    ReadsIds "from=7&to=8".toList 7 8 ∧ ReadsIds "to=8&from=7".toList 7 8 ∧
      MessagesHandler.getToUserFromQueryParams "first=1&last=10&user=7".toList = .ok 7 := by
  have hwindow : Windowed [("first".toList, Numeral.toText 1),
      ("last".toList, Numeral.toText 10)] := by
    intro entry hentry
    rcases List.mem_cons.mp hentry with rfl | hentry
    · exact ⟨.inl rfl, 1, rfl⟩
    · obtain rfl := List.mem_singleton.mp hentry
      exact ⟨.inr rfl, 10, rfl⟩
  obtain ⟨hfrom, hto, huser⟩ :=
    readsIds_iff (a := 7) (b := 8) (by decide) (by decide) hwindow []
  exact ⟨hfrom.mpr (by decide), hto.mpr (by decide), huser.mpr (by decide)⟩

/-- An id of seven digits loses the last one: another user is addressed. -/
theorem readsIds_seven_digits_fails :
    getFromUserFromQueryParams "from=1234567&to=1".toList = .ok 123456 ∧
      ¬ ReadsIds "from=1234567&to=1".toList 1234567 1 := by
  have hread : getFromUserFromQueryParams "from=1234567&to=1".toList = .ok 123456 := by
    decide +kernel
  refine ⟨hread, fun h => ?_⟩
  rw [ReadsIds, hread] at h
  exact absurd h.1 (by decide)

end TallerII.QueryIds
