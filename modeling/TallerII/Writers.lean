import Mathlib.Data.String.Basic
import TallerII.Documents

/-!
# Writing and reading documents

`FastWriter` and `StyledWriter` write documents, so that what they make of a value is read back
(`parse_write`, `parse_toStyledString`). A double with at most 17 digits and none behind the point
looks like an integer and is read as one (`reread`), and that is all that changes.
-/

namespace TallerII

open Lib

/-! ## The writer without blanks -/

namespace FastWriter

mutual

/-- `writeValue`. -/
def writeValue : Json → Text
  | .null => "null".toList
  | .bool b => if b then "true".toList else "false".toList
  | .int n => Numeral.toText n
  | .real q => Json.realToString q
  | .string text => Json.valueToQuotedString text
  | .array items => '[' :: (Json.commaSeparated [','] (writeItems items) ++ [']'])
  | .object members => '\x7b' :: (Json.commaSeparated [','] (writeMembers members) ++ ['\x7d'])

/-- The items of an array. -/
def writeItems : List Json → List Text
  | [] => []
  | item :: items => writeValue item :: writeItems items

/-- The members of an object. -/
def writeMembers : List (String × Json) → List Text
  | [] => []
  | (name, value) :: members =>
    (Json.valueToQuotedString name.toList ++ ':' :: writeValue value) :: writeMembers members

end

/-- `write`, with the end of the line. -/
def write (root : Json) : Text :=
  writeValue root ++ ['\n']

/-- The items are written one by one. -/
theorem writeItems_eq (items : List Json) : writeItems items = items.map writeValue := by
  induction items with
  | nil => rfl
  | cons item items ih => rw [writeItems, ih, List.map_cons]

/-- The members are written one by one. -/
theorem writeMembers_eq (members : List (String × Json)) :
    writeMembers members =
      members.map fun member =>
        Json.valueToQuotedString member.1.toList ++ ':' :: writeValue member.2 := by
  induction members with
  | nil => rfl
  | cons member members ih => rw [writeMembers, ih, List.map_cons]

end FastWriter

namespace Reader

/-! ## Values and what is read of them -/

/-- The values that a reader may give, nested at most to a depth: integers of 64 bits, doubles,
and members in the order of their names. -/
inductive Readable : Nat → Json → Prop where
  | null {depth : Nat} : Readable (depth + 1) .null
  | bool {depth : Nat} (b : Bool) : Readable (depth + 1) (.bool b)
  | int {depth : Nat} {n : Int} (hmin : -2 ^ 63 ≤ n) (hmax : n < 2 ^ 64) :
      Readable (depth + 1) (.int n)
  | real {depth : Nat} {q : Rat} (h : IsDouble q) : Readable (depth + 1) (.real q)
  | string {depth : Nat} (text : Text) : Readable (depth + 1) (.string text)
  | array {depth : Nat} {items : List Json} (h : ∀ item ∈ items, Readable depth item) :
      Readable (depth + 1) (.array items)
  | object {depth : Nat} {members : List (String × Json)}
      (hsorted : members.Pairwise fun one other => one.1 < other.1)
      (h : ∀ member ∈ members, Readable depth member.2) : Readable (depth + 1) (.object members)

mutual

/-- What is read of a value that was written. -/
def reread : Json → Json
  | .real q => if q.den = 1 ∧ q.num.natAbs < 10 ^ 17 then .int q.num else .real q
  | .array items => .array (rereadItems items)
  | .object members => .object (rereadMembers members)
  | .null => .null
  | .bool b => .bool b
  | .int n => .int n
  | .string text => .string text

/-- The same of the items of an array. -/
def rereadItems : List Json → List Json
  | [] => []
  | item :: items => reread item :: rereadItems items

/-- The same of the members of an object. -/
def rereadMembers : List (String × Json) → List (String × Json)
  | [] => []
  | (name, value) :: members => (name, reread value) :: rereadMembers members

end

/-- Items are read again one by one. -/
theorem rereadItems_eq (items : List Json) : rereadItems items = items.map reread := by
  induction items with
  | nil => rfl
  | cons item items ih => rw [rereadItems, ih, List.map_cons]

/-- Members are read again one by one. -/
theorem rereadMembers_eq (members : List (String × Json)) :
    rereadMembers members = members.map fun member => (member.1, reread member.2) := by
  induction members with
  | nil => rfl
  | cons member members ih => rw [rereadMembers, ih, List.map_cons]

/-! ## Scalars -/

/-- The digits of a number denote it. -/
theorem natural_toDigits (n : Nat) : Literal.natural (Nat.toDigits 10 n) = some n := by
  rw [Literal.natural_eq (Nat.toDigits_ne_nil) fun c hc => Numeral.isDigit_of_mem_toDigits hc,
    Nat.ofDigitChars_ten_toDigits]

/-- An integer of 64 bits is written as a number. -/
theorem number_toText {n : Int} (hmin : -2 ^ 63 ≤ n) (hmax : n < 2 ^ 64) :
    Number (.int n) (Numeral.toText n) := by
  rw [Numeral.toText]
  split
  · rename_i hneg
    have := Number.minus (natural_toDigits n.natAbs) (by omega)
    rwa [show -(n.natAbs : Int) = n by omega] at this
  · have := Number.integer (natural_toDigits n.natAbs) (by omega)
    rwa [show (n.natAbs : Int) = n by omega] at this

/-- The doubles that are read as integers. -/
theorem integral_parts {q : Rat} (h : q.den = 1 ∧ q.num.natAbs < 10 ^ 17) :
    (q.num : Rat) = q ∧ Json.realToString q = Numeral.toText q.num := by
  have hcast : (q.num : Rat) = q := (Rat.den_eq_one_iff q).mp h.1
  have habs : |q.num| < 10 ^ 17 := by
    rw [Int.abs_eq_natAbs]
    exact_mod_cast h.2
  refine ⟨hcast, ?_⟩
  rw [← Json.realToString_integer habs, hcast]

/-- A double is written as a number, one that looks like an integer as that. -/
theorem number_realToString {q : Rat} (h : IsDouble q) :
    Number (reread (.real q)) (Json.realToString q) := by
  rw [reread]
  split
  · rename_i hinteger
    have hnumber := @number_toText q.num (by omega) (by omega)
    rwa [← (integral_parts hinteger).2] at hnumber
  · rename_i hother
    have hzero : q ≠ 0 := by
      rintro rfl
      exact hother ⟨rfl, by decide⟩
    have hprinted := Json.digits_printed hzero
    have hliteral := @Json.isLiteral_layout _ (Json.printed q).2 hprinted.least hprinted.most
    have hround := Json.round_rounded hzero h
    -- an integer that is so short would have been kept
    have hnatural : ∀ n, Literal.natural (Json.layout (Json.printed q).1 (Json.printed q).2)
        ≠ some n := by
      intro n hn
      obtain ⟨-, hdigits, -⟩ := Literal.natural_parts hn
      obtain ⟨m, rfl, hm⟩ := Json.integral_of_digits h hzero hdigits
      refine hother ⟨rfl, ?_⟩
      rw [Int.abs_eq_natAbs] at hm
      show m.natAbs < 10 ^ 17
      exact_mod_cast hm
    rw [Json.realToString_eq hzero]
    rw [Json.rounded] at hround
    split
    · rename_i hneg
      rw [if_pos hneg] at hround
      exact .minusReal hliteral (fun n hn => absurd hn (hnatural n)) hround
    · rename_i hpos
      rw [if_neg hpos] at hround
      exact .real hliteral (fun n hn => absurd hn (hnatural n)) hround

/-- The escape of a control character is its code. -/
theorem hexNumber_control : ∀ n < 32,
    hexNumber ['0', '0', Nat.digitChar (n / 16), (Nat.digitChar (n % 16)).toUpper] = some n := by
  decide

/-- A character as it is written between two quotes. -/
theorem spells_quoteChar (c : Char) {text spelling : Text} (h : Spells text spelling) :
    Spells (c :: text) (Json.quoteChar c ++ spelling) := by
  have hnamed : ∀ {n : Nat} {letter : Char}, c.toNat = n → unescape letter = some (Char.ofNat n) →
      Spells (c :: text) ('\\' :: letter :: spelling) := by
    rintro n letter rfl hletter
    rw [Char.ofNat_toNat] at hletter
    exact .escape hletter h
  unfold Json.quoteChar
  split_ifs with hquote hescape hback hfeed hline hreturn htab hcontrol
  · subst hquote
    exact .escape rfl h
  · subst hescape
    exact .escape rfl h
  · exact hnamed hback rfl
  · exact hnamed hfeed rfl
  · exact hnamed hline rfl
  · exact hnamed hreturn rfl
  · exact hnamed htab rfl
  · have hcode := CodePoint.single (hexNumber_control c.toNat hcontrol) (by omega)
    have hutf8 : codePointToUTF8 c.toNat = [c] := by
      rw [codePointToUTF8, if_pos (by omega), Char.ofNat_toNat]
    have hspells := Spells.unicode hcode h
    rwa [hutf8] at hspells
  · exact .char hquote hescape h

/-- A quoted text is spelled with its escapes. -/
theorem spells_quoted (text : Text) : Spells text (text.flatMap Json.quoteChar) := by
  induction text with
  | nil => exact .nil
  | cons c text ih => exact spells_quoteChar c ih

/-! ## Members in order -/

/-- A name behind all others is inserted at the end. -/
theorem insertMember_last {name : String} (value : Json) {members : List (String × Json)}
    (h : ∀ member ∈ members, member.1 < name) :
    Json.insertMember name value members = members ++ [(name, value)] := by
  induction members with
  | nil => rfl
  | cons member members ih =>
      have hlt : member.1 < name := h member List.mem_cons_self
      rw [Json.insertMember, if_neg hlt.asymm, if_neg hlt.ne',
        ih fun other hother => h other (List.mem_cons_of_mem _ hother), List.cons_append]

/-- Members in order stay in order. -/
theorem assignedTo_sorted {members before : List (String × Json)}
    (hsorted : (before ++ members).Pairwise fun one other => one.1 < other.1) :
    assignedTo before (members.map fun member => (member.1.toList, member.2))
      = before ++ members := by
  induction members generalizing before with
  | nil => exact (List.append_nil _).symm
  | cons member members ih =>
      have hlast : ∀ other ∈ before, other.1 < member.1 := fun other hother =>
        (List.pairwise_append.mp hsorted).2.2 other hother member List.mem_cons_self
      have hmoved : before ++ member :: members = (before ++ [member]) ++ members := by
        rw [List.append_assoc, List.singleton_append]
      rw [hmoved] at hsorted ⊢
      rw [← ih hsorted, List.map_cons]
      show assignedTo (Json.insertMember (String.ofList member.1.toList) member.2 before) _ = _
      rw [String.ofList_toList, insertMember_last _ hlast]

/-! ## Documents that were written -/

/-- A member is written as a name and a value. -/
theorem member_quoted {item : Json → Text → Prop} {name gap text : Text} {value : Json}
    (hvalue : Padded item value text) (hgap : Blank gap) :
    Member item (name, value) (Json.valueToQuotedString name ++ (gap ++ ':' :: text)) := by
  have hpair := Member.pair (spells_quoted name) hgap hvalue
  rw [Json.valueToQuotedString, List.cons_append, List.append_assoc]
  exact hpair

/-- Members in order are read again as they were. -/
theorem assignedTo_reread {members : List (String × Json)}
    (hsorted : members.Pairwise fun one other => one.1 < other.1) :
    assignedTo [] (members.map fun member => (member.1.toList, reread member.2)) =
      members.map fun member => (member.1, reread member.2) := by
  have hnames := @assignedTo_sorted (members.map fun member => (member.1, reread member.2)) []
    (List.pairwise_map.mpr hsorted)
  rwa [List.map_map] at hnames

/-- What `FastWriter` writes is a text of the value. -/
theorem document_write {depth : Nat} {value : Json} (h : Readable depth value) :
    Document depth (reread value) (FastWriter.writeValue value) := by
  induction h with
  | null => exact .inl .null
  | bool b =>
      cases b with
      | true => exact .inl .true
      | false => exact .inl .false
  | int hmin hmax => exact .inl (.number (number_toText hmin hmax))
  | real h => exact .inl (.number (number_realToString h))
  | string text => exact .inl (.string (spells_quoted text))
  | @array depth items h ih =>
      rw [reread, rereadItems_eq, FastWriter.writeValue, FastWriter.writeItems_eq]
      by_cases hnil : items = []
      · subst hnil
        exact .inr (.inl ⟨[], blank_nil, rfl, rfl⟩)
      · have hitems : Separated (fun item => Document depth (reread item)) ',' items _ :=
          separated_intercalate hnil ih
        refine .inr (.inr (.inr (.inl ⟨_, _, ?_, rfl, rfl⟩)))
        exact hitems.map_imp (f := reread) fun item text => padded_self
  | @object depth members hsorted h ih =>
      rw [reread, rereadMembers_eq, FastWriter.writeValue, FastWriter.writeMembers_eq]
      by_cases hnil : members = []
      · subst hnil
        exact .inr (.inr (.inl ⟨[], blank_nil, rfl, rfl⟩))
      · have hmembers : Separated
            (fun member => Member (Document depth) (member.1.toList, reread member.2)) ','
              members _ :=
          separated_intercalate hnil fun member hmember =>
            member_quoted (padded_self (ih member hmember)) blank_nil
        rw [← assignedTo_reread hsorted]
        refine .inr (.inr (.inr (.inr ⟨_, _, ?_, rfl, rfl⟩)))
        exact hmembers.map_imp (f := fun member => (member.1.toList, reread member.2)) fun member
          text =>
          padded_self

/-- The end of the line ends a number. -/
theorem endsNumber_line (rest : Text) : EndsNumber ('\n' :: rest) := by
  rintro c ⟨⟩
  decide

/-- What is written can be read, and comes back but for the doubles that look like integers.
Whatever the buffer has room for behind it is not looked at. -/
theorem parse_write {value : Json} (h : Readable stackLimit value) (slack : Text) :
    parse (FastWriter.write value ++ slack) = .ok (some (reread value)) := by
  rw [FastWriter.write, List.append_assoc]
  exact @parse_of_document _ _ [] _ (document_write h) blank_nil fun _ => endsNumber_line slack

/-! ## The styled writer -/

/-- A new line with its indentation is blank. -/
theorem blank_newLine (indent : Nat) : Blank (Json.newLine indent) := by
  intro c hc
  rcases List.mem_cons.mp hc with rfl | hspace
  · rfl
  · rw [List.eq_of_mem_replicate hspace]
    rfl

/-- Blanks behind an item. -/
theorem padded_append {α : Type} {item : α → Text → Prop} {back : Text} (hback : Blank back)
    (a : α)
    (text : Text) (h : Padded item a text) : Padded item a (text ++ back) := by
  obtain ⟨front, inner, behind, hfront, hitem, hbehind, rfl⟩ := h
  refine ⟨front, inner, behind ++ back, hfront, hitem, ?_, by simp only [List.append_assoc]⟩
  exact fun c hc => (List.mem_append.mp hc).elim (hbehind c) (hback c)

/-- Texts with blanks in front of each and behind the last one. -/
theorem separated_lines {α β : Type} {item : β → Text → Prop} {f : α → β} {write : α → Text}
    {as : List α}
    (hne : as ≠ []) (h : ∀ a ∈ as, item (f a) (write a)) {front back : Text}
    (hfront : Blank front)
    (hback : Blank back) :
    Separated (Padded item) ',' (as.map f)
      ([','].intercalate (as.map fun a => front ++ write a) ++ back) := by
  have hlines : Separated (fun a => Padded item (f a)) ',' as _ :=
    separated_intercalate hne fun a ha =>
      ⟨front, write a, [], hfront, h a ha, blank_nil, by rw [List.append_nil]⟩
  exact (hlines.map_imp (f := f) fun a text => id).append_last (padded_append hback)

/-- The lines of the items are those of each of them. -/
theorem writeItems_eq (indent : Nat) (items : List Json) :
    Json.writeItems indent items = items.map (Json.writeValue indent) := by
  induction items with
  | nil => rfl
  | cons item items ih => rw [Json.writeItems, ih, List.map_cons]

/-- The lines of the members are those of each of them. -/
theorem writeMembers_eq (indent : Nat) (members : List (String × Json)) :
    Json.writeMembers indent members = members.map fun member =>
      Json.newLine indent ++ (Json.valueToQuotedString member.1.toList ++
        ([' '] ++ ':' :: ' ' :: Json.writeValue indent member.2)) := by
  induction members with
  | nil => rfl
  | cons member members ih =>
      rw [Json.writeMembers, ih, List.map_cons, List.append_assoc, List.append_assoc]
      rfl

/-- The items in one line, with their spaces: each space is counted to the item behind it. -/
theorem oneLine_eq {texts : List Text} (hne : texts ≠ []) :
    "[ ".toList ++ Json.commaSeparated [',', ' '] texts ++ " ]".toList
      = '[' :: ([','].intercalate (texts.map ([' '] ++ ·)) ++ [' '] ++ [']']) := by
  rw [← @intercalate_append ',' [' '] texts hne, List.append_assoc _ [' '], List.append_assoc]
  rfl

/-- What `StyledWriter` writes is a text of the value. -/
theorem document_writeValue {depth : Nat} {value : Json} (h : Readable depth value)
    (indent : Nat) :
    Document depth (reread value) (Json.writeValue indent value) := by
  have hspace : Blank [' '] := by
    intro c hc
    rw [List.mem_singleton.mp hc]
    rfl
  induction h generalizing indent with
  | null => exact .inl .null
  | bool b =>
      cases b with
      | true => exact .inl .true
      | false => exact .inl .false
  | int hmin hmax => exact .inl (.number (number_toText hmin hmax))
  | real h => exact .inl (.number (number_realToString h))
  | string text => exact .inl (.string (spells_quoted text))
  | @array depth items h ih =>
      rw [reread, rereadItems_eq, Json.writeValue, writeItems_eq]
      by_cases hnil : items = []
      · subst hnil
        exact .inr (.inl ⟨[], blank_nil, rfl, rfl⟩)
      · have hitems := fun item hitem => ih item hitem (indent + 3)
        rw [if_neg (by simpa using hnil)]
        refine .inr (.inr (.inr (.inl ?_)))
        split
        · refine ⟨_, _, separated_lines hnil hitems (blank_newLine (indent + 3))
            (blank_newLine indent), rfl, ?_⟩
          rw [List.map_map]
          rfl
        · refine ⟨_, _, separated_lines hnil hitems hspace hspace, rfl, ?_⟩
          rw [oneLine_eq (by simpa using hnil), List.map_map]
          rfl
  | @object depth members hsorted h ih =>
      rw [reread, rereadMembers_eq, Json.writeValue, writeMembers_eq]
      by_cases hnil : members = []
      · subst hnil
        exact .inr (.inr (.inl ⟨[], blank_nil, rfl, rfl⟩))
      · rw [if_neg (by simpa using hnil), ← assignedTo_reread hsorted]
        refine .inr (.inr (.inr (.inr ⟨_, _, ?_, rfl, rfl⟩)))
        refine separated_lines hnil (fun member hmember => member_quoted ?_ hspace)
          (blank_newLine (indent + 3))
          (blank_newLine indent)
        exact ⟨[' '], _, [], hspace, ih member hmember (indent + 3), blank_nil,
          by rw [List.append_nil]; rfl⟩

/-- What `StyledWriter` writes is read again. -/
theorem parse_toStyledString {value : Json} (h : Readable stackLimit value) (slack : Text) :
    parse (Json.toStyledString value ++ slack) = .ok (some (reread value)) := by
  rw [Json.toStyledString, List.append_assoc]
  exact @parse_of_document _ _ [] _ (document_writeValue h 0) blank_nil fun _ =>
    endsNumber_line slack

end Reader

namespace StyledWriter

mutual

/-- A value with the names of its members as `c_str()` gives them. -/
def cNames : Json → Json
  | .array items => .array (cNamesOfItems items)
  | .object members => .object (cNamesOfMembers members)
  | .null => .null
  | .bool b => .bool b
  | .int n => .int n
  | .real q => .real q
  | .string text => .string text

/-- The same of the items of an array. -/
def cNamesOfItems : List Json → List Json
  | [] => []
  | item :: items => cNames item :: cNamesOfItems items

/-- The same of the members of an object. -/
def cNamesOfMembers : List (String × Json) → List (String × Json)
  | [] => []
  | (name, value) :: members =>
    (String.ofList (name.toList.takeWhile fun c => c.toNat ≠ 0), cNames value)
      :: cNamesOfMembers members

end

/-- `write`, which takes the names for C strings. -/
def write (root : Json) : Text :=
  Json.toStyledString (cNames root)

end StyledWriter

namespace Reader

/-- Both writers are undone by the reader, the styled one where no name holds a NUL. -/
theorem parse_written {value : Json} (h : Readable stackLimit value) (slack : Text) :
    parse (FastWriter.write value ++ slack) = .ok (some (reread value)) ∧
      (StyledWriter.cNames value = value →
        parse (StyledWriter.write value ++ slack) = .ok (some (reread value))) := by
  refine ⟨parse_write h slack, fun hnames => ?_⟩
  rw [StyledWriter.write, hnames]
  exact parse_toStyledString h slack

/-- A number and a half, which keeps its fraction, and a whole one, which comes back as an
integer. -/
theorem parse_written_object :
    parse (StyledWriter.write
      (.object [("a", .real (3 / 2)), ("b", .real 2), ("c", .int (-7))])) =
      .ok (some (.object [("a", .real (3 / 2)), ("b", .int 2), ("c", .int (-7))])) := by
  have hhalf : IsDouble (3 / 2) := ⟨3, -1, by decide, by decide, by decide, by norm_num⟩
  have hwhole : IsDouble 2 := ⟨2, 0, by decide, by decide, by decide, by norm_num⟩
  have hvalue : Readable stackLimit
      (.object [("a", .real (3 / 2)), ("b", .real 2), ("c", .int (-7))]) := by
    refine .object (by decide) fun member hmember => ?_
    simp only [List.mem_cons, List.not_mem_nil, or_false] at hmember
    obtain rfl | rfl | rfl := hmember
    · exact .real hhalf
    · exact .real hwhole
    · exact .int (by decide) (by decide)
  have hden : ¬ ((3 / 2 : Rat).den = 1 ∧ (3 / 2 : Rat).num.natAbs < 10 ^ 17) := by norm_num
  have hreread : reread (.object [("a", .real (3 / 2)), ("b", .real 2), ("c", .int (-7))]) =
      .object [("a", .real (3 / 2)), ("b", .int 2), ("c", .int (-7))] := by
    simp only [reread, rereadMembers, if_neg hden]
    rfl
  have hwritten := (parse_written hvalue []).2 rfl
  rwa [List.append_nil, hreread] at hwritten

end Reader

end TallerII
