import TallerII.Commands
import TallerII.Contacts
import TallerII.History
import TallerII.Loading
import TallerII.Votes

/-!
# The strings of the store

The database keeps strings, of which an `Entry` says what document they are. Every document that
the managers write is the value of its string (`getJsonFromString_contents`), and what they load
from the strings of a reachable store is what the documents say.
-/

namespace TallerII

open Lib Reader

/-- The string of an entry. -/
def Entry.contents : Entry → Text
  | .text contents => contents
  | .json document => FastWriter.write document

/-- `Manager::getJsonFromString`, which reads a C string from a buffer with room behind it. -/
def Manager.getJsonFromString (slack svalue : Text) : Except Exn (Option Json) :=
  parse (cString svalue ++ slack)

/-! ## The strings are C strings -/

/-- No character is a NUL. -/
def NoNul (text : Text) : Prop :=
  Char.ofNat 0 ∉ text

namespace NoNul

variable {left right : Text}

/-- The empty text has no NUL. -/
theorem nil : NoNul [] := List.not_mem_nil

/-- Neither have two texts without one. -/
theorem append (hleft : NoNul left) (hright : NoNul right) : NoNul (left ++ right) := by
  intro h
  exact (List.mem_append.mp h).elim hleft hright

/-- Neither has another character in front. -/
theorem cons {c : Char} (hc : Char.ofNat 0 ≠ c) (h : NoNul right) : NoNul (c :: right) :=
  List.not_mem_cons_of_ne_of_not_mem hc h

/-- Digits are no NUL. -/
theorem of_digits (h : ∀ c ∈ left, c.isDigit = true) : NoNul left := by
  intro hnul
  cases h _ hnul

/-- Texts with a separator between them. -/
theorem intercalate {separator : Text} (hseparator : NoNul separator) {texts : List Text}
    (h : ∀ text ∈ texts, NoNul text) : NoNul (separator.intercalate texts) := by
  induction texts with
  | nil => exact nil
  | cons text texts ih =>
      have htext := h text List.mem_cons_self
      cases texts with
      | nil => rwa [List.intercalate_singleton]
      | cons other texts =>
          rw [List.intercalate_cons_cons]
          exact (htext.append hseparator).append
            (ih fun text ht => h text (List.mem_cons_of_mem _ ht))

/-- An integer that is printed. -/
theorem toText (n : Int) : NoNul (Numeral.toText n) := by
  intro h
  rcases Numeral.mem_toText h with hminus | hdigit
  · cases hminus
  · cases hdigit

/-- Digits with a point. -/
theorem pointed {digits : Text} (h : ∀ c ∈ digits, c.isDigit = true) :
    NoNul (Json.pointed (Json.trimZeros digits)) := by
  obtain ⟨count, hcount⟩ := Json.trimZeros_append digits
  have htrimmed : NoNul (Json.trimZeros digits) := by
    refine of_digits fun c hc => h c ?_
    rw [hcount]
    exact List.mem_append_left _ hc
  rw [Json.pointed]
  split
  · exact nil
  · exact cons (by decide) htrimmed

/-- A double that is printed. -/
theorem realToString (q : Rat) : NoNul (Json.realToString q) := by
  by_cases hzero : q = 0
  · subst hzero
    exact cons (by decide) nil
  · have hdigits : ∀ {n : Nat}, ∀ c ∈ Nat.toDigits 10 n, c.isDigit = true :=
      fun c hc => Numeral.isDigit_of_mem_toDigits hc
    have htake : ∀ {n : Nat} (count : Nat), ∀ c ∈ (Nat.toDigits 10 n).take count, c.isDigit
        = true :=
      fun count c hc => hdigits c (List.mem_of_mem_take hc)
    have hdrop : ∀ {n : Nat} (count : Nat), ∀ c ∈ (Nat.toDigits 10 n).drop count, c.isDigit
        = true :=
      fun count c hc => hdigits c (List.mem_of_mem_drop hc)
    rw [Json.realToString_eq hzero]
    refine append ?_ ?_
    · split
      · exact cons (by decide) nil
      · exact nil
    unfold Json.layout
    dsimp only
    split_ifs
    · refine ((of_digits (htake 1)).append (pointed (hdrop 1))).append (cons (by decide) ?_)
      refine cons ?_ ?_
      · split <;> decide
      · split
        · exact cons (by decide) (of_digits hdigits)
        · exact of_digits hdigits
    · refine cons (by decide) (pointed fun c hc => ?_)
      rcases List.mem_append.mp hc with hrepeated | hdigit
      · rw [List.eq_of_mem_replicate hrepeated]
        rfl
      · exact hdigits c hdigit
    · exact (of_digits (htake _)).append (pointed (hdrop _))

/-- The escape of a control character. -/
theorem control : ∀ n < 32, Char.ofNat 0 ∉ ['\\', 'u', '0', '0', Nat.digitChar (n / 16),
    (Nat.digitChar (n % 16)).toUpper] := by
  decide

/-- A character that is quoted. -/
theorem quoteChar (c : Char) : NoNul (Json.quoteChar c) := by
  unfold Json.quoteChar NoNul
  split_ifs with hquote hescape hback hfeed hline hreturn htab hcontrol
  iterate 7 decide
  · exact control c.toNat hcontrol
  · intro h
    rw [List.mem_singleton] at h
    exact hcontrol (by rw [← h]; decide)

/-- A string that is quoted. -/
theorem valueToQuotedString (text : Text) : NoNul (Json.valueToQuotedString text) := by
  refine cons (by decide) (append ?_ (cons (by decide) nil))
  intro hnul
  obtain ⟨c, -, hc⟩ := List.mem_flatMap.mp hnul
  exact quoteChar c hc

/-- A truth value that is printed. -/
theorem bool (b : Bool) : NoNul (if b then "true".toList else "false".toList) := by
  unfold NoNul
  cases b <;> decide

mutual

/-- A value that is written. -/
theorem writeValue (value : Json) : NoNul (FastWriter.writeValue value) := by
  match value with
  | .null => exact cons (by decide) (cons (by decide) (cons (by decide) (cons (by decide) nil)))
  | .bool b => exact bool b
  | .int n => exact toText n
  | .real q => exact realToString q
  | .string text => exact valueToQuotedString text
  | .array items =>
      exact cons (by decide) (append (intercalate (cons (by decide) nil) (writeItems items))
        (cons (by decide) nil))
  | .object members =>
      exact cons (by decide) (append (intercalate (cons (by decide) nil) (writeMembers members))
        (cons (by decide) nil))

/-- The items of an array that are written. -/
theorem writeItems (items : List Json) : ∀ text ∈ FastWriter.writeItems items, NoNul text := by
  match items with
  | [] => exact List.forall_mem_nil _
  | item :: items => exact List.forall_mem_cons.mpr ⟨writeValue item, writeItems items⟩

/-- The members of an object that are written. -/
theorem writeMembers (members : List (String × Json)) :
    ∀ text ∈ FastWriter.writeMembers members, NoNul text := by
  match members with
  | [] => exact List.forall_mem_nil _
  | (name, value) :: members =>
      refine List.forall_mem_cons.mpr ⟨?_, writeMembers members⟩
      exact (valueToQuotedString name.toList).append (cons (by decide) (writeValue value))

end

end NoNul

/-- The string of a document gives the document back. -/
theorem getJsonFromString_contents {document : Json} (h : Readable stackLimit document)
    (slack : Text) :
    Manager.getJsonFromString slack (Entry.json document).contents
      = .ok (some (reread document)) := by
  have hnul : NoNul (FastWriter.write document) :=
    (NoNul.writeValue document).append (.cons (by decide) .nil)
  rw [Manager.getJsonFromString, Entry.contents, cString_of_not_mem hnul]
  exact parse_write h slack

/-! ## What the managers write -/

section Documents

variable {depth : Nat}

/-- A `long` is readable. -/
theorem readable_ofLong (value : Long) : Readable (depth + 1) (.ofLong value) :=
  .int (Int64.le_toInt value) (by have := Int64.toInt_lt value; omega)

/-- An `int` is readable. -/
theorem readable_ofInt (value : Int32) : Readable (depth + 1) (.ofInt value) := by
  have hmin := Int32.le_toInt value
  have hmax := Int32.toInt_lt value
  exact .int (by omega) (by omega)

/-- An object of readable members is readable. -/
theorem readable_ofMembers {members : List (String × Json)}
    (h : ∀ member ∈ members, Readable depth member.2) :
    Readable (depth + 1) (Json.ofMembers members) := by
  have hbuilt : ∀ before : List (String × Json), ReadableMembers depth before →
      ReadableMembers depth
        (members.foldl (fun acc member => Json.insertMember member.1 member.2 acc) before) := by
    induction members with
    | nil => exact fun before hbefore => hbefore
    | cons member members ih =>
        intro before hbefore
        obtain ⟨hfirst, hrest⟩ := List.forall_mem_cons.mp h
        exact ih hrest _ (hbefore.insert member.1 hfirst)
  have hmembers := hbuilt [] ⟨.nil, List.forall_mem_nil _⟩
  unfold Json.ofMembers
  split
  · exact .null
  · exact .object hmembers.sorted hmembers.values

/-- An array of readable items is readable. -/
theorem readable_ofAppended {items : List Json} (h : ∀ item ∈ items, Readable depth item) :
    Readable (depth + 1) (Json.ofAppended items) := by
  unfold Json.ofAppended
  split
  · exact .null
  · exact .array h

end Documents

/-! ## Loading from strings -/

/-- A value is loaded from the string of an entry. -/
def Loads {α : Type} (read : Json → Except Exn α) (entry : Entry) (a : α) : Prop :=
  ∀ slack, ∃ value, Manager.getJsonFromString slack entry.contents = .ok (some value) ∧
    read value = .ok a

/-- A document that is read alike again is loaded from its characters. -/
theorem loads {α : Type} {read : Json → Except Exn α} {document : Json}
    (hagree : Agree (read (reread document)) (read document))
    (hdocument : Readable stackLimit document) {a : α} (h : read document = .ok a) :
    Loads read (.json document) a :=
  fun slack => ⟨reread document, getJsonFromString_contents hdocument slack, hagree.ok h⟩

/-- The coordinates of a profile are doubles. -/
structure Person.Located (person : Person) : Prop where
  latitude : IsDouble person.location.latitude
  longitude : IsDouble person.location.longitude

/-- A list as a member is readable. -/
theorem readable_appended {depth : Nat} {name : String} {items : List Json}
    (h : ∀ item ∈ items, Readable depth item) :
    ∀ member ∈ Json.appendedMember name items, Readable (depth + 1) member.2 := by
  intro member hmember
  rw [Json.appendedMember] at hmember
  split at hmember
  · cases hmember
  · rw [List.mem_singleton.mp hmember]
    exact .array h

/-- A profile is readable. -/
theorem readable_person {person : Person} (h : person.Located) :
    Readable 4 person.serializeMe := by
  have hjobs : ∀ item ∈ person.workHistory.map WorkHistory.serializeMe, Readable 2 item := by
    intro item hitem
    obtain ⟨job, -, rfl⟩ := List.mem_map.mp hitem
    refine readable_ofMembers ?_
    simp [Readable.string]
  have hskills : ∀ item ∈ person.skills.map Skill.serializeMe, Readable 2 item := by
    intro item hitem
    obtain ⟨skill, -, rfl⟩ := List.mem_map.mp hitem
    refine readable_ofMembers ?_
    simp [Readable.string]
  have hlocation : Readable 3 (Json.ofMembers [("latitude", .real person.location.latitude),
      ("longitude", .real person.location.longitude)]) := by
    refine readable_ofMembers ?_
    simp [Readable.real h.latitude, Readable.real h.longitude]
  refine readable_ofMembers ?_
  refine List.forall_mem_append.mpr ⟨List.forall_mem_append.mpr ⟨?_, readable_appended hjobs⟩,
    readable_appended hskills⟩
  simp [Readable.string, readable_ofLong, readable_ofInt, hlocation]

/-- A profile is loaded from the characters that were stored. -/
theorem loads_person {person : Person} (h : person.Normalized) (hlocated : person.Located) :
    Loads Person.ofJson (.json person.serializeMe) person :=
  loads (agree_person (readable_person hlocated)) ((readable_person hlocated).mono (by decide))
    (Person.ofJson_serializeMe h)

/-- Messages are read alike. -/
theorem agree_message (value : Json) :
    Agree (MessagesManager.Message.ofJson (reread value))
    (MessagesManager.Message.ofJson value) := by
  unfold MessagesManager.Message.ofJson
  refine Json.agree_member (fun found => (Json.agree_asString found).bind fun message => ?_)
    value _
  refine Json.agree_member (fun found => (Json.agree_asString found).bind fun timestamp => ?_)
    value _
  refine Json.agree_member
    (fun found => (Json.agree_asLargestInt found).bind fun fromUserId => ?_) value _
  refine Json.agree_member (fun found => (Json.agree_asLargestInt found).bind fun toUserId => ?_)
    value _
  exact Json.agree_member (fun found => (Json.agree_asString found).bind fun state => .refl _)
    value _

/-- Contacts are read alike. -/
theorem agree_contact (value : Json) :
    Agree (RelationsManager.Contact.ofJson (reread value))
    (RelationsManager.Contact.ofJson value) := by
  unfold RelationsManager.Contact.ofJson
  refine Json.agree_member (fun found => (Json.agree_asString found).bind fun status => ?_)
    value _
  exact Json.agree_member (fun found => (Json.agree_asLargestInt found).bind fun userId =>
    .refl _) value _

/-- Recommendations are read alike. -/
theorem agree_recommendations (value : Json) :
    Agree (RecommendationsManager.parseRecommendationsString (reread value))
      (RecommendationsManager.parseRecommendationsString value) := by
  have hitems : ∀ (items : List Json) (start : Nat),
      Agree (((items.map reread).zipIdx start).mapM fun item => do
          (← item.1.member (Nat.repr item.2)).asLargestInt)
        ((items.zipIdx start).mapM fun item =>
          do (← item.1.member (Nat.repr item.2)).asLargestInt) := by
    intro items
    induction items with
    | nil => exact fun start => .refl _
    | cons item items ih =>
        intro start
        rw [List.map_cons, List.zipIdx_cons, List.zipIdx_cons, List.mapM_cons, List.mapM_cons]
        exact (Json.agree_member Json.agree_asLargestInt item _).bind fun _ =>
          (ih (start + 1)).bind fun _ => .refl _
  exact Json.agree_member (Json.agree_elements fun items => hitems items 0) value _

/-- What is read of each item of a list. -/
def readItems {α : Type} (read : Json → Except Exn α) (value : Json) : Except Exn (List α) := do
  (← value.elements).mapM read

/-- Lists are read alike when their items are. -/
theorem agree_readItems {α : Type} {read : Json → Except Exn α}
    (hagree : ∀ value, Agree (read (reread value)) (read value)) (value : Json) :
    Agree (readItems read (reread value)) (readItems read value) :=
  Json.agree_elements (Json.agree_mapM hagree) value

/-- A list whose items are read back is loaded as a whole. -/
theorem loads_items {α : Type} {read : Json → Except Exn α} {write : α → Json}
    (hagree : ∀ value, Agree (read (reread value)) (read value))
    (hread : ∀ a, read (write a) = .ok a)
    (hreadable : ∀ a, Readable 2 (write a)) (as : List α) :
    Loads (readItems read) (.json (Json.ofAppended (as.map write))) as := by
  have hdocument : Readable 3 (Json.ofAppended (as.map write)) := by
    refine readable_ofAppended fun item hitem => ?_
    obtain ⟨a, -, rfl⟩ := List.mem_map.mp hitem
    exact hreadable a
  refine loads (agree_readItems hagree _) (hdocument.mono (by decide)) ?_
  rw [readItems, Json.elements_ofAppended, ok_bind]
  exact mapM_map_of_inverse fun a _ => hread a

/-- A conversation is loaded from the characters that were stored. -/
theorem loads_conversation (messages : List MessagesManager.Message) :
    Loads (readItems MessagesManager.Message.ofJson)
      (.json (Json.ofAppended (messages.map MessagesManager.Message.serializeMe))) messages := by
  refine loads_items agree_message MessagesManager.Message.ofJson_serializeMe (fun message => ?_)
    messages
  refine readable_ofMembers ?_
  simp [Readable.string, readable_ofLong]

/-- So is a list of contacts. -/
theorem loads_contacts (contacts : List RelationsManager.Contact) :
    Loads (readItems RelationsManager.Contact.ofJson)
      (.json (Json.ofAppended (contacts.map RelationsManager.Contact.toJson))) contacts := by
  refine loads_items agree_contact RelationsManager.Contact.ofJson_toJson (fun contact => ?_)
    contacts
  refine readable_ofMembers ?_
  simp [Readable.string, readable_ofLong]

/-- So is a list of recommendations. -/
theorem loads_recommendations (recommendations : List Long) :
    Loads RecommendationsManager.parseRecommendationsString
      (.json (RecommendationsManager.buildJsonToSave recommendations)) recommendations := by
  have hitems : ∀ item ∈ recommendations.zipIdx.map fun recommendation =>
      Json.ofMembers [(Nat.repr recommendation.2, .ofLong recommendation.1)],
        Readable 2 item := by
    intro item hitem
    obtain ⟨recommendation, -, rfl⟩ := List.mem_map.mp hitem
    refine readable_ofMembers ?_
    simp [readable_ofLong]
  have hdocument : Readable 4 (RecommendationsManager.buildJsonToSave recommendations) :=
    readable_ofMembers (readable_appended hitems)
  exact loads (agree_recommendations _) (hdocument.mono (by decide))
    (RecommendationsManager.parseRecommendationsString_buildJsonToSave recommendations)

end TallerII
