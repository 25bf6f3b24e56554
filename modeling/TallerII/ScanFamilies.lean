import TallerII.Conversations
import TallerII.SearchUsers

/-!
# The families that the scans visit

The loops over the store run from one prefix to another one, and the loop over the ids runs until
a key that lies before its start. `visitsOwn` says that over the keys that the server writes, with
anything behind their prefixes, each of them visits one family: all of it and nothing else.
-/

namespace TallerII.PersonManager

open Manager

/-! ## The keys of the server -/

/-- A key that the server writes: the counter, a key of a family, or one of a conversation. -/
inductive ServerKey : Text → Prop
  | counter : ServerKey lastID
  | family (family : Prefix) (rest : Text) : ServerKey (key family rest)
  | conversation (userId contactId : Long) (rest : Text) :
      ServerKey (toString userId ++ '_' :: (toString contactId ++ rest))

/-- Every key of a store is one that the server writes. -/
def Written (db : DB) : Prop :=
  ∀ other entry, db.existsKey other = some entry → ServerKey other

variable {db : DB} {other : Text} {start stop : Prefix}

/-- There is no key yet. -/
theorem Written.empty : Written ∅ := by
  intro other entry hentry
  rw [DB.existsKey_empty] at hentry
  cases hentry

/-- A key of the server may be written. -/
theorem Written.putKey (h : Written db) (hkey : ServerKey other) (value : Entry) :
    Written (db.putKey other value) := by
  intro found entry hentry
  rw [DB.existsKey_putKey] at hentry
  split at hentry
  · rename_i heq
    exact heq ▸ hkey
  · exact h found entry hentry

/-- The keys of a laid out store are among them. -/
theorem Laid.written (h : Laid db) : Written db := by
  have hconversation : ∀ first second : Long,
      ServerKey (toString first ++ ['_'] ++ toString second) := by
    intro first second
    have hkey := ServerKey.conversation first second []
    rwa [List.append_nil, List.append_cons] at hkey
  intro other entry hentry
  rcases h other entry hentry with rfl | ⟨family, rest, rfl⟩ | ⟨user, contact, rfl⟩
  · exact .counter
  · exact .family family rest
  · unfold MessagesManager.getKey
    split
    · exact hconversation user contact
    · exact hconversation contact user

/-! ## The place of a key -/

/-- A key begins with the prefix of its own family alone. -/
theorem chars_prefix_key {family : Prefix} {rest : Text} :
    start.chars <+: key family rest ↔ family = start := by
  constructor
  · rintro ⟨tail, heq⟩
    have hkeys : key start tail = key family rest := heq
    exact (key_inj.mp hkeys).1.symm
  · rintro rfl
    exact List.prefix_append _ _

/-- Nothing with a prefix of users at its front stands before that prefix. -/
theorem not_prefix_of_lt (h : other < start.chars) : ¬ start.chars <+: other := by
  rintro ⟨rest, rfl⟩
  exact not_append_lt _ _ h

/-- A key of the server is of the family of a prefix of users, or of another family, or stands
before the prefix. -/
theorem ServerKey.cases_chars (h : ServerKey other) {start : Prefix}
    (hstart : start.initial = 'u') :
    (∃ family rest, other = key family rest) ∨ other < start.chars := by
  cases h with
  | counter => exact .inr (lastID_lt_chars hstart)
  | family family rest => exact .inl ⟨family, rest, rfl⟩
  | conversation userId contactId rest =>
      obtain ⟨c, tail, hkey, hc⟩ :=
        MessagesManager.head_toString_append userId ('_' :: (toString contactId ++ rest))
      rw [hkey]
      exact .inr (head_lt_chars hstart hc tail)

/-- A loop that starts at a prefix of users and visits one family visits exactly the keys with the
prefix. -/
theorem ServerKey.visited_iff (h : ServerKey other) (hstart : start.initial = 'u')
    (visited : Text → Prop) (hle : ∀ text, visited text → start.chars ≤ text)
    (hown : ∀ family rest, visited (key family rest) ↔ family = start) :
    visited other ↔ start.chars <+: other := by
  rcases h.cases_chars hstart with ⟨family, rest, rfl⟩ | hlt
  · rw [hown, chars_prefix_key]
  · constructor
    · intro hvisited
      exact absurd hlt (not_lt.mpr (hle other hvisited))
    · intro hprefix
      exact absurd hprefix (not_prefix_of_lt hlt)

/-- Within the bounds of a scan are the keys of its family. -/
theorem ServerKey.mem_range_iff (h : ServerKey other) (hstart : start.initial = 'u')
    (hrange : ∀ {family : Prefix} {rest : Text},
      start.chars ≤ key family rest ∧ key family rest < stop.chars ↔ family = start) :
    start.chars ≤ other ∧ other < stop.chars ↔ start.chars <+: other :=
  h.visited_iff hstart (fun text => start.chars ≤ text ∧ text < stop.chars)
    (fun _ hvisited => hvisited.1) fun _ _ => hrange

/-- From the first id on there are only ids. -/
theorem ServerKey.le_iff (h : ServerKey other) :
    Prefix.userUuid.chars ≤ other ↔ Prefix.userUuid.chars <+: other :=
  h.visited_iff rfl (fun text => Prefix.userUuid.chars ≤ text) (fun _ hvisited => hvisited)
    fun _ _ => range_userUuid

/-! ## The loops -/

/-- The entries of a family, in the order of their keys. -/
def familyEntries (db : DB) (family : Prefix) : List (Text × Entry) :=
  db.toList.filter fun entry => family.chars.isPrefixOf entry.1

/-- The entries that the loop of `getAllUsersIds` visits. -/
def visitedIds (db : DB) : List (Text × Entry) :=
  (db.toList.dropWhile (·.1 < Prefix.userUuid.chars)).takeWhile (·.1 ≠ Prefix.userMail.chars)

/-- Those that a loop reads: the others have an empty value. -/
def stored (entries : List (Text × Entry)) : List (Text × Entry) :=
  entries.filter fun entry => ! entry.2.isEmpty

/-- The loops visit their own family, and the functions read nothing else. -/
structure VisitsOwn (db : DB) : Prop where
  records : Lib.Scan.scan db.toList Prefix.userMail.chars Prefix.userName.chars
    = familyEntries db .userMail
  names : Lib.Scan.scan db.toList Prefix.userName.chars Prefix.userPassword.chars
    = familyEntries db .userName
  ids : visitedIds db = familyEntries db .userUuid
  /-- What `stol` gets is what follows the prefix of an id. -/
  ids_own : ∀ entry ∈ visitedIds db, ∃ rest, entry.1 = key .userUuid rest
  getAllUsers : getAllUsers db
    = (stored (familyEntries db .userMail)).mapM fun entry => Person.ofJson entry.2.parse
  searchByMail : ∀ lib userMail, searchByMail lib db userMail = do
    let userSearch ← item userMail 0
    let e ← lib.regex (lower userSearch)
    ((stored (familyEntries db .userMail)).filter fun entry => e entry.1).mapM fun entry =>
      Person.ofJson entry.2.parse
  searchByDistance : ∀ lib distanceSearch, searchByDistance lib db distanceSearch = do
    let centre ← centreAndRadius lib distanceSearch
    let users ← (stored (familyEntries db .userMail)).mapM fun entry =>
      Person.ofJson entry.2.parse
    return users.filter fun user => centre.1.getDistanceFrom user.location ≤ centre.2 ^ 2
  searchByName : ∀ lib userSearchName, searchByName lib db userSearchName = do
    let userSearch ← item userSearchName 0
    let e ← lib.regex (lower userSearch)
    let found ← (stored (familyEntries db .userName)).mapM fun entry => do
      let cleanFullName ← getCleanNameFromKey entry.1
      if e cleanFullName then
        let user ← getUserByMail db entry.2.asText
        return some user
      else return none
    return found.filterMap id
  getAllUsersIds : getAllUsersIds db = (stored (familyEntries db .userUuid)).mapM fun entry =>
    stol (entry.1.drop Prefix.userUuid.chars.length)

/-- Every key that is there is one of the server. -/
theorem Written.of_mem (h : Written db) {entry : Text × Entry} (hentry : entry ∈ db.toList) :
    ServerKey entry.1 :=
  h entry.1 entry.2 (Std.ExtTreeMap.mem_toList_iff_getElem?_eq_some.mp hentry)

/-- A scan whose range holds one family of users visits that family. -/
theorem Written.scan_eq (h : Written db) (hstart : start.initial = 'u')
    (hrange : ∀ {family : Prefix} {rest : Text},
      start.chars ≤ key family rest ∧ key family rest < stop.chars ↔ family = start) :
    Lib.Scan.scan db.toList start.chars stop.chars = familyEntries db start := by
  rw [Lib.Scan.scan_eq_filter db.sorted_toList, familyEntries]
  apply List.filter_congr
  intro entry hentry
  rw [Bool.eq_iff_iff]
  simp only [decide_eq_true_eq, List.isPrefixOf_iff_prefix]
  exact (h.of_mem hentry).mem_range_iff hstart hrange

/-- From the first id on the loop over the ids visits every key. -/
theorem Written.visitedIds_eq (h : Written db) : visitedIds db = familyEntries db .userUuid := by
  rw [visitedIds, visited_ids_eq, familyEntries]
  apply List.filter_congr
  intro entry hentry
  rw [Bool.eq_iff_iff, Bool.not_eq_true', decide_eq_false_iff_not, not_lt,
    List.isPrefixOf_iff_prefix]
  exact (h.of_mem hentry).le_iff

/-- Over the keys of the server every loop visits its own family. -/
theorem visitsOwn (h : Written db) : VisitsOwn db := by
  have hrecords : Lib.Scan.scan db.toList Prefix.userMail.chars Prefix.userName.chars
      = familyEntries db .userMail := h.scan_eq rfl range_userMail
  have hnames : Lib.Scan.scan db.toList Prefix.userName.chars Prefix.userPassword.chars
      = familyEntries db .userName := h.scan_eq rfl range_userName
  have hids := h.visitedIds_eq
  constructor
  · exact hrecords
  · exact hnames
  · exact hids
  · intro entry hentry
    rw [hids] at hentry
    obtain ⟨rest, hkey⟩ := List.isPrefixOf_iff_prefix.mp (List.mem_filter.mp hentry).2
    exact ⟨rest, hkey.symm⟩
  · rw [getAllUsers, DB.scan, hrecords]
    rfl
  · intro lib userMail
    rw [searchByMail, DB.scan, hrecords]
    rfl
  · intro lib distanceSearch
    rw [searchByDistance, getAllUsers, DB.scan, hrecords]
    rfl
  · intro lib userSearchName
    rw [searchByName, DB.scan, hnames]
    rfl
  · rw [getAllUsersIds, ← hids]
    rfl

/-- A store with a value under each of some keys. -/
def storeOf (keys : List Text) : DB :=
  keys.foldr (fun other db => db.putKey other (.text ['v'])) ∅

/-- A store of keys of the server. -/
theorem Written.storeOf {keys : List Text} (h : ∀ other ∈ keys, ServerKey other) :
    Written (storeOf keys) := by
  induction keys with
  | nil => exact .empty
  | cons other keys ih =>
      obtain ⟨hfirst, hrest⟩ := List.forall_mem_cons.mp h
      exact (ih hrest).putKey hfirst _

/-- A key of each kind. -/
def kinds : List Text :=
  [lastID, toString 3 ++ '_' :: (toString 7 ++ []), key .userMail "a@x".toList,
    key .userUuid ['7'], key .userName "ana-x_a@x".toList, key .userPassword "a@x".toList,
    key .userSkill ['c'], key .userJobPosition ['d'], key .userToken ['t'], key .contact ['7'],
    key .recommendation ['7'], key .notificationsToken ['7']]

/-- In a store with a key of every kind each scan visits its own. -/
theorem visitsOwn_kinds : VisitsOwn (storeOf kinds) := by
  refine visitsOwn (Written.storeOf fun other hother => ?_)
  simp only [kinds, List.mem_cons, List.not_mem_nil, or_false] at hother
  rcases hother with rfl | rfl | rfl | rfl | rfl | rfl | rfl | rfl | rfl | rfl | rfl | rfl
  · exact .counter
  · exact .conversation 3 7 []
  all_goals exact .family _ _

end TallerII.PersonManager
