import TallerII.Writers

/-!
# What the reader accepts

A value that the reader gives can be written and read again (`readable_of_parse`): its integers
have 64 bits, its members are in order and it is not nested deeper than the stack limit. What is
read again of it is written with the same characters (`write_reread`), and the accessors see the
same in it (`reread_observed`).
-/

namespace TallerII.Reader

open Lib

/-! ## Readable values -/

/-- The members after an insertion are the one that is inserted and the ones before. -/
theorem mem_insertMember {name : String} {value : Json} {members : List (String × Json)}
    {member : String × Json} (h : member ∈ Json.insertMember name value members) :
    member = (name, value) ∨ member ∈ members := by
  induction members with
  | nil => exact .inl (List.mem_singleton.mp h)
  | cons other members ih =>
      rw [Json.insertMember] at h
      split_ifs at h with hlt heq
      · exact List.mem_cons.mp h
      · exact (List.mem_cons.mp h).imp_right (List.mem_cons_of_mem _)
      · rcases List.mem_cons.mp h with rfl | hmem
        · exact .inr List.mem_cons_self
        · exact (ih hmem).imp_right (List.mem_cons_of_mem _)

/-- An insertion keeps members in the order of their names. -/
theorem sorted_insertMember {name : String} {value : Json} {members : List (String × Json)}
    (h : members.Pairwise fun one other => one.1 < other.1) :
    (Json.insertMember name value members).Pairwise fun one other => one.1 < other.1 := by
  induction members with
  | nil => exact List.pairwise_singleton _ _
  | cons member members ih =>
      obtain ⟨hfirst, hrest⟩ := List.pairwise_cons.mp h
      rw [Json.insertMember]
      split_ifs with hlt heq
      · refine List.pairwise_cons.mpr ⟨fun other hother => ?_, h⟩
        rcases List.mem_cons.mp hother with rfl | hmem
        · exact hlt
        · exact hlt.trans (hfirst other hmem)
      · exact List.pairwise_cons.mpr ⟨fun other hother => heq ▸ hfirst other hother, hrest⟩
      · refine List.pairwise_cons.mpr ⟨fun other hother => ?_, ih hrest⟩
        rcases mem_insertMember hother with rfl | hmem
        · exact lt_of_le_of_ne (not_lt.mp hlt) (Ne.symm heq)
        · exact hfirst other hmem

/-- An integer that is decoded is not larger than the largest one. -/
theorem decodeInteger_le {maxIntegerValue n : Nat} (hmax : 10 ≤ maxIntegerValue) {text : Text}
    (h : decodeInteger maxIntegerValue 0 text = some n) : n ≤ maxIntegerValue := by
  rw [decodeInteger_eq hmax (digits_of_decodeInteger h) (Nat.zero_le _)] at h
  split at h
  · rename_i hle
    exact Option.some.inj h ▸ hle
  · cases h

/-- A number that is decoded has 64 bits or is a double. -/
theorem readable_of_decodeNumber {text : Text} {value : Json} (h : decodeNumber text = some value)
    (left : Nat) : Readable (left + 1) value := by
  have hreal : ∀ {magnitude : Option Rat} {f : Rat → Rat},
      ((magnitude.bind fun q => binary64.round (f q)).map Json.real) = some value →
        Readable (left + 1) value := by
    intro magnitude f hdouble
    obtain ⟨d, hd, rfl⟩ := Option.map_eq_some_iff.mp hdouble
    obtain ⟨q, -, hround⟩ := Option.bind_eq_some_iff.mp hd
    exact .real (Binary.Format.isNumber_of_round (by decide) (by decide) hround)
  by_cases hhead : text.head? = some '-'
  · obtain ⟨digits, rfl⟩ := List.head?_eq_some_iff.mp hhead
    rw [decodeNumber_minus] at h
    rcases Option.or_eq_some_iff.mp h with hinteger | ⟨-, hdouble⟩
    · obtain ⟨n, hn, rfl⟩ := Option.map_eq_some_iff.mp hinteger
      have hle := decodeInteger_le (by decide) hn
      exact .int (by omega) (by omega)
    · exact hreal hdouble
  · rw [decodeNumber_of_head hhead] at h
    rcases Option.or_eq_some_iff.mp h with hinteger | ⟨-, hdouble⟩
    · obtain ⟨n, hn, rfl⟩ := Option.map_eq_some_iff.mp hinteger
      have hle := decodeInteger_le (by decide) hn
      exact .int (by omega) (by omega)
    · exact hreal hdouble

section Loops

variable {left : Nat} {readValue : Text → Outcome (Json × Text)}

/-- A reader whose values are readable. -/
def ReadsReadable (readValue : Text → Outcome (Json × Text)) (left : Nat) : Prop :=
  ∀ {document value rest}, readValue document = .ok (value, rest) → Readable left value

/-- Members in order with values that are readable. -/
structure ReadableMembers (left : Nat) (members : List (String × Json)) : Prop where
  sorted : members.Pairwise fun one other => one.1 < other.1
  values : ∀ member ∈ members, Readable left member.2

/-- A readable member may be inserted. -/
theorem ReadableMembers.insert {members : List (String × Json)} (h : ReadableMembers left members)
    (name : String) {value : Json} (hvalue : Readable left value) :
    ReadableMembers left (Json.insertMember name value members) where
  sorted := sorted_insertMember h.sorted
  values := by
    intro member hmember
    rcases mem_insertMember hmember with rfl | hmem
    · exact hvalue
    · exact h.values member hmem

/-- An object whose values are readable is readable one level deeper. -/
theorem readable_readObject (hread : ReadsReadable readValue left) {document rest : Text}
    {value : Json}
    (h : readObject readValue document = .ok (value, rest)) : Readable (left + 1) value := by
  refine Loop.ok_of_run (fun state => ReadableMembers left state.2.1)
    (fun result => Readable (left + 1) result.1) ?_ ?_ ⟨.nil, List.forall_mem_nil _⟩ h
  · rintro ⟨lastName, members, start⟩ next hstate hturn
    obtain ⟨-, -, hinl⟩ | ⟨name, _, item, _, last, final, -, -, -, hvalue, -, houtcome⟩ :=
      memberTurn_ok hturn
    · cases hinl
    · cases last <;> cases houtcome
      exact hstate.insert _ (hread hvalue)
  · rintro ⟨lastName, members, start⟩ result hstate hturn
    obtain ⟨-, -, hinl⟩ | ⟨name, _, item, _, last, final, -, -, -, hvalue, -, houtcome⟩ :=
      memberTurn_ok hturn
    · cases hinl
      exact .object hstate.sorted hstate.values
    · cases last <;> cases houtcome
      have hmembers := hstate.insert (String.ofList name) (hread hvalue)
      exact .object hmembers.sorted hmembers.values

/-- An array whose items are readable is readable one level deeper. -/
theorem readable_readArray (hread : ReadsReadable readValue left) {document rest : Text}
    {value : Json}
    (h : readArray readValue document = .ok (value, rest)) : Readable (left + 1) value := by
  have happend : ∀ {items : List Json} {last : Json}, (∀ item ∈ items, Readable left item) →
      Readable left last → ∀ item ∈ items ++ [last], Readable left item := by
    intro items last hitems hlast item hitem
    rcases List.mem_append.mp hitem with hmem | hmem
    · exact hitems item hmem
    · rwa [List.mem_singleton.mp hmem]
  rw [readArray] at h
  split at h
  · cases h
    exact .array (List.forall_mem_nil _)
  · refine Loop.ok_of_run (fun state => ∀ item ∈ state.1, Readable left item)
      (fun result => Readable (left + 1) result.1) ?_ ?_ (List.forall_mem_nil _) h
    · rintro ⟨items, start⟩ next hstate hturn
      obtain ⟨item, behind, hvalue, ⟨-, hinl⟩ | ⟨-, hinr⟩⟩ := itemTurn_ok hturn
      · cases hinl
      · cases hinr
        exact happend hstate (hread hvalue)
    · rintro ⟨items, start⟩ result hstate hturn
      obtain ⟨item, behind, hvalue, ⟨-, hinl⟩ | ⟨-, hinr⟩⟩ := itemTurn_ok hturn
      · cases hinl
        exact .array (happend hstate (hread hvalue))
      · cases hinr

end Loops

/-- What is read with some stack left is nested no deeper than that. -/
theorem readable_readValue (left : Nat) : ReadsReadable (readValue left) left := by
  induction left with
  | zero =>
      intro document value rest h
      cases h
  | succ left ih =>
      intro document value rest h
      obtain ⟨-, hobject | harray | ⟨-, hnumber | ⟨text, rfl⟩ | ⟨b, rfl⟩ | rfl⟩⟩ := readValue_ok h
      · exact readable_readObject ih hobject
      · exact readable_readArray ih harray
      · exact readable_of_decodeNumber hnumber left
      · exact .string text
      · exact .bool b
      · exact .null

/-- What the reader accepts is readable. -/
theorem readable_of_parse {document : Text} {value : Json}
    (h : parse document = .ok (some value)) :
    Readable stackLimit value := by
  rw [parse] at h
  split at h
  · rename_i hvalue
    cases h
    exact readable_readValue stackLimit hvalue
  · cases h
  · cases h

/-! ## Writing what was read again -/

mutual

/-- A value is written with the characters of what is read again of it. -/
theorem writeValue_reread (value : Json) :
    FastWriter.writeValue (reread value) = FastWriter.writeValue value := by
  match value with
  | .null | .bool _ | .int _ | .string _ => rw [reread]
  | .real q =>
      rw [reread]
      split
      · exact (integral_parts ‹_›).2.symm
      · rfl
  | .array items => rw [reread, FastWriter.writeValue, FastWriter.writeValue, writeItems_reread]
  | .object members =>
      rw [reread, FastWriter.writeValue, FastWriter.writeValue, writeMembers_reread]

/-- The same of the items of an array. -/
theorem writeItems_reread (items : List Json) :
    FastWriter.writeItems (rereadItems items) = FastWriter.writeItems items := by
  match items with
  | [] => rfl
  | item :: items =>
      rw [rereadItems, FastWriter.writeItems, writeValue_reread item, writeItems_reread items,
        FastWriter.writeItems]

/-- The same of the members of an object. -/
theorem writeMembers_reread (members : List (String × Json)) :
    FastWriter.writeMembers (rereadMembers members) = FastWriter.writeMembers members := by
  match members with
  | [] => rfl
  | (name, value) :: members =>
      rw [rereadMembers, FastWriter.writeMembers, writeValue_reread value,
        writeMembers_reread members,
        FastWriter.writeMembers]

end

/-- A document is written with the characters of what is read again of it. -/
theorem write_reread (value : Json) :
    FastWriter.write (reread value) = FastWriter.write value := by
  rw [FastWriter.write, writeValue_reread, FastWriter.write]

/-- No double in a value is zero. A double is a rational here, so that `-0.0` cannot be told from
`0.0`; but only the first is written with its sign, as an integer that is read without it. -/
inductive NonzeroDoubles : Json → Prop where
  | null : NonzeroDoubles .null
  | bool (b : Bool) : NonzeroDoubles (.bool b)
  | int (n : Int) : NonzeroDoubles (.int n)
  | real {q : Rat} (h : q ≠ 0) : NonzeroDoubles (.real q)
  | string (text : Text) : NonzeroDoubles (.string text)
  | array {items : List Json} (h : ∀ item ∈ items, NonzeroDoubles item) :
      NonzeroDoubles (.array items)
  | object {members : List (String × Json)} (h : ∀ member ∈ members, NonzeroDoubles member.2) :
      NonzeroDoubles (.object members)

/-- Whatever was accepted can be stored and loaded: what is loaded is the value but for the
doubles that look like integers, and if no double is zero, storing it again changes no character.
-/
theorem parse_write_of_parse {document : Text} {value : Json}
    (h : parse document = .ok (some value)) :
    (∀ slack, parse (FastWriter.write value ++ slack) = .ok (some (reread value))) ∧
      (NonzeroDoubles value → FastWriter.write (reread value) = FastWriter.write value) :=
  ⟨parse_write (readable_of_parse h), fun _ => write_reread value⟩

/-- A fraction with a point. -/
theorem number_half : Number (.real (3 / 2)) "1.5".toList := by
  have hround : binary64.round (3 / 2) = some (3 / 2) :=
    Binary.Format.round_of_isNumber ⟨3, -1, by norm_num [binary64], by norm_num [binary64],
      by norm_num [binary64], by norm_num⟩
  have hliteral : Literal.IsLiteral "1.5".toList (3 / 2) := by
    have hparts := @Literal.IsLiteral.parts ['1'] ['5'] [] 0 (by simp) (by simp) (by simp) rfl
    have hvalue : Literal.scaled ['1'] ['5'] 0 = 3 / 2 := by
      have hdigits : Nat.ofDigitChars 10 (['1'] ++ ['5']) 0 = 15 := rfl
      rw [Literal.scaled, hdigits]
      norm_num
    rwa [hvalue] at hparts
  refine .real hliteral (fun n hn => ?_) hround
  cases hn

/-- A fraction keeps its characters. -/
theorem parse_write_of_parse_pair :
    parse "[1.5,\"a\"]".toList = .ok (some (.array [.real (3 / 2), .string ['a']])) ∧
      parse (FastWriter.write (.array [.real (3 / 2), .string ['a']]))
        = .ok (some (reread (.array [.real (3 / 2), .string ['a']]))) ∧
      FastWriter.write (reread (.array [.real (3 / 2), .string ['a']]))
        = FastWriter.write (.array [.real (3 / 2), .string ['a']]) := by
  have hstring : Scalar (.string ['a']) "\"a\"".toList :=
    .string (.char (by decide) (by decide) .nil)
  have hdocument : Document stackLimit (.array [.real (3 / 2), .string ['a']])
      "[1.5,\"a\"]".toList :=
    .inr (.inr (.inr (.inl ⟨_, _, .cons (padded_self (.inl (.number number_half)))
      (.single (padded_self (.inl hstring))), rfl, rfl⟩)))
  have haccepted : parse "[1.5,\"a\"]".toList
      = .ok (some (.array [.real (3 / 2), .string ['a']])) :=
    @parse_of_document _ "[1.5,\"a\"]".toList [] [] hdocument blank_nil fun hnumeric =>
      hnumeric.elim
  obtain ⟨hparse, hwrite⟩ := parse_write_of_parse haccepted
  have hagain := hparse []
  rw [List.append_nil] at hagain
  refine ⟨haccepted, hagain, hwrite (.array fun item hitem => ?_)⟩
  simp only [List.mem_cons, List.not_mem_nil, or_false] at hitem
  obtain rfl | rfl := hitem
  · exact .real (by norm_num)
  · exact .string _

end TallerII.Reader
