import TallerII.Json
import TallerII.Lib.Scan

/-!
# The key-value store

`DB` is the ordered map behind `DBWrapper`: `existsKey`, `putKey`, `deleteKey` and the scans of an
iterator. Its values are strings; an `Entry` keeps a string that is the text of a JSON document as
the document, which is what parsing the text of `FastWriter` gives back. `key` builds the keys
from the prefixes that the managers use, and `key_inj` says that keys of different families never
collide.
-/

namespace TallerII

open Lib

/-- A stored value: a plain string, or the `FastWriter` text of a document. -/
inductive Entry where
  | text (contents : Text)
  | json (document : Json)
deriving Repr, Inhabited

namespace Entry

/-- The string as a plain one. No key family mixes the two kinds of values. -/
def asText : Entry → Text
  | text contents => contents
  | json _ => []

/-- A string that is not empty is a plain one. -/
theorem eq_text_of_asText {entry : Entry} {contents : Text} (h : entry.asText = contents)
    (hcontents : contents ≠ []) : entry = .text contents := by
  cases entry with
  | text found => rw [← h]; rfl
  | json document => exact absurd h.symm hcontents

/-- `Reader::parse` of the string. -/
def parse : Entry → Json
  | text _ => .null
  | json document => document

/-- `empty()` of the string. A written document is never the empty string. -/
def isEmpty : Entry → Bool
  | text contents => contents.isEmpty
  | json _ => false

end Entry

/-- The prefixes of the keys that the managers write. -/
inductive Prefix where
  | userMail
  | userUuid
  | userPassword
  | userName
  | userSkill
  | userJobPosition
  | userToken
  | contact
  | recommendation
  | notificationsToken
deriving Repr, DecidableEq

/-- The characters of a prefix. -/
def Prefix.chars : Prefix → Text
  | userMail => "user:mail_".toList
  | userUuid => "user:uuid_".toList
  | userPassword => "user:password_".toList
  | userName => "user:name_".toList
  | userSkill => "user:skill_".toList
  | userJobPosition => "user:jobPosition_".toList
  | userToken => "user:token_".toList
  | contact => "contact_".toList
  | recommendation => "recommendation_".toList
  | notificationsToken => "notifications_token_".toList

/-- The key of a family for the given rest. -/
def key (family : Prefix) (rest : Text) : Text :=
  family.chars ++ rest

/-- The key of the counter of ids. -/
def lastID : Text :=
  "lastID".toList

/-- No prefix begins another one. -/
theorem Prefix.eq_of_chars_prefix {family other : Prefix} (h : family.chars <+: other.chars) :
    family = other := by
  revert h
  cases family <;> cases other <;> decide

/-- A key fixes its family and its rest. -/
@[simp] theorem key_inj {family other : Prefix} {rest otherRest : Text} :
    key family rest = key other otherRest ↔ family = other ∧ rest = otherRest := by
  constructor
  · intro h
    have hleft : family.chars <+: key family rest := List.prefix_append _ _
    have hright : other.chars <+: key family rest := by
      rw [h]
      exact List.prefix_append _ _
    have hsame : family = other := by
      rcases List.prefix_or_prefix_of_prefix hleft hright with hp | hp
      · exact Prefix.eq_of_chars_prefix hp
      · exact (Prefix.eq_of_chars_prefix hp).symm
    subst hsame
    exact ⟨rfl, List.append_cancel_left h⟩
  · rintro ⟨rfl, rfl⟩
    rfl

/-- The first character of a prefix. -/
def Prefix.initial : Prefix → Char
  | contact => 'c'
  | recommendation => 'r'
  | notificationsToken => 'n'
  | _ => 'u'

/-- A key begins with the initial of its family. -/
theorem head_key (family : Prefix) (rest : Text) :
    (key family rest).head? = some family.initial := by
  have hchars : family.chars.head? = some family.initial := by
    cases family <;> decide
  rw [key, List.head?_append, hchars]
  rfl

/-- The counter is in no family. -/
@[simp] theorem key_ne_lastID {family : Prefix} {rest : Text} : key family rest ≠ lastID := by
  intro h
  have hhead := congrArg List.head? h
  rw [head_key] at hhead
  revert hhead
  cases family <;> decide

/-- The same the other way round. -/
@[simp] theorem lastID_ne_key {family : Prefix} {rest : Text} : lastID ≠ key family rest :=
  fun h => key_ne_lastID h.symm

/-- The order of keys is the order in which the map keeps them. -/
theorem compare_eq_lt {left right : Text} : compare left right = .lt ↔ left < right := by
  have hchar : ∀ c d : Char, compare c d = .lt ↔ c < d := by
    intro c d
    simp only [compare, compareOfLessAndEq]
    split
    · simpa
    · split <;> simpa using not_lt.mp ‹_›
  induction left generalizing right with
  | nil => cases right <;> simp [compare, List.compareLex]
  | cons c left ih =>
      cases right with
      | nil => simp [compare, List.compareLex]
      | cons d right =>
          have hunfold : compare (c :: left) (d :: right)
              = (compare c d).then (compare left right) :=
            List.compareLex_cons_cons
          have htail : compare left right = .lt ↔ left < right := ih
          rw [hunfold, Ordering.then_eq_lt, hchar, htail, Std.compare_eq_iff_eq,
            List.cons_lt_cons_iff]

/-- The store. -/
abbrev DB := Std.ExtTreeMap Text Entry compare

namespace DB

/-- `existsKey`, with the value that it copies out when the key is found. -/
def existsKey (db : DB) (key : Text) : Option Entry :=
  db[key]?

/-- `putKey`. -/
def putKey (db : DB) (key : Text) (value : Entry) : DB :=
  db.insert key value

/-- `deleteKey`. -/
def deleteKey (db : DB) (key : Text) : DB :=
  db.erase key

/-- `getKey` into a string that is still empty: nothing is copied when the key is missing. -/
def getKey (db : DB) (key : Text) : Entry :=
  (db.existsKey key).getD (.text [])

/-- The entries that an iterator visits from `start` while its key is below `stop`, without those
whose value is empty. -/
def scan (db : DB) (start stop : Text) : List (Text × Entry) :=
  (Scan.scan db.toList start stop).filter fun entry => ! entry.2.isEmpty

variable {db : DB}

/-- There is no key yet. -/
@[simp] theorem existsKey_empty (key : Text) : existsKey ∅ key = none := by
  simp [existsKey]

/-- The values after a key was put. -/
@[simp] theorem existsKey_putKey (db : DB) (key : Text) (value : Entry) (other : Text) :
    (db.putKey key value).existsKey other
      = if key = other then some value else db.existsKey other := by
  simp [existsKey, putKey, Std.ExtTreeMap.getElem?_insert]

/-- The values after a key was deleted. -/
@[simp] theorem existsKey_deleteKey (db : DB) (key other : Text) :
    (db.deleteKey key).existsKey other = if key = other then none else db.existsKey other := by
  simp [existsKey, deleteKey, Std.ExtTreeMap.getElem?_erase]

/-- Two stores with the same values under the same keys are equal. -/
theorem ext {left right : DB} (h : ∀ key, left.existsKey key = right.existsKey key) :
    left = right :=
  Std.ExtTreeMap.ext_getElem? h

/-- Storing a value that is already there changes nothing. -/
theorem putKey_same {key : Text} {value : Entry} (h : db.existsKey key = some value) :
    db.putKey key value = db := by
  apply ext
  intro other
  rw [existsKey_putKey]
  split
  · rename_i heq
    rw [← heq, h]
  · rfl

/-- Deleting a key that is not there changes nothing. -/
theorem deleteKey_missing {key : Text} (h : db.existsKey key = none) : db.deleteKey key = db := by
  apply ext
  intro other
  rw [existsKey_deleteKey]
  split
  · rename_i heq
    rw [← heq, h]
  · rfl

/-- An iterator meets the keys in their order. -/
theorem sorted_toList (db : DB) : db.toList.Pairwise fun left right => left.1 < right.1 :=
  Std.ExtTreeMap.ordered_keys_toList.imp compare_eq_lt.mp

/-- The entries of a scan are those within its bounds that are not empty. -/
theorem mem_scan {start stop : Text} {entry : Text × Entry} :
    entry ∈ db.scan start stop ↔
      db.existsKey entry.1 = some entry.2 ∧ start ≤ entry.1 ∧ entry.1 < stop ∧
        entry.2.isEmpty = false := by
  rw [scan, Scan.scan_eq_filter db.sorted_toList]
  simp only [List.mem_filter, decide_eq_true_eq, Bool.not_eq_true', existsKey,
    ← Std.ExtTreeMap.mem_toList_iff_getElem?_eq_some]
  tauto

/-- A scan visits no key twice. -/
theorem scan_keys_nodup (db : DB) (start stop : Text) :
    ((db.scan start stop).map Prod.fst).Nodup := by
  have hsub : (db.scan start stop).Sublist db.toList :=
    List.filter_sublist.trans
      ((List.takeWhile_sublist _).trans (List.dropWhile_sublist _))
  have hdistinct : db.toList.Pairwise fun left right => left.1 ≠ right.1 :=
    Std.ExtTreeMap.distinct_keys_toList.imp fun h heq => h (by simp [heq])
  exact List.pairwise_map.mpr (hdistinct.sublist hsub)

end DB

end TallerII
