import TallerII.Lib.Lexer

/-!
# The text of JSON documents

The tokens of a JSON text: strings with their escapes decoded, symbols, and lexemes, the numbers
and words, whose own form is not looked at. A text is a list of bytes, so an escaped code point
stands for its bytes in UTF-8; escaped surrogates have no reading here.

`Value.tokens` are the tokens of a document and `print` writes tokens without escapes, which
`lex_print` reads back. No text of an object is shorter than members of it (`gauge` and
`membersSize_le`).
-/

namespace TallerII.Lib.JsonText

/-- A token of a JSON text. -/
inductive Token where
  | string (text : List Char)
  | symbol (c : Char)
  | lexeme (text : List Char)
deriving Repr, DecidableEq

/-- What the next character belongs to. -/
inductive Mode where
  | between
  | string (text : List Char)
  | escape (text : List Char)
  | unicode (text digits : List Char)
  | lexeme (text : List Char)
deriving Repr, DecidableEq

/-- The characters between tokens. -/
def isBlank (c : Char) : Bool :=
  c ∈ [' ', '\t', '\n', '\r']

/-- The characters that are tokens by themselves. -/
def isSymbol (c : Char) : Bool :=
  c ∈ ['\x7b', '\x7d', '[', ']', ':', ',']

/-- A character of a number or a word. -/
def isLexemeChar (c : Char) : Bool :=
  c.isAlphanum || c ∈ ['+', '-', '.']

/-- A character that a string cannot hold as it is. -/
def isControl (c : Char) : Bool :=
  c.toNat < 32

/-- The character for the letter of an escape. -/
def unescape (c : Char) : Option Char :=
  if c ∈ ['"', '\\', '/'] then some c
  else if c = 'b' then some (Char.ofNat 8)
  else if c = 'f' then some (Char.ofNat 12)
  else if c = 'n' then some '\n'
  else if c = 'r' then some '\r'
  else if c = 't' then some '\t'
  else none

/-- The value of a hexadecimal digit. -/
def hexValue (c : Char) : Option Nat :=
  if '0' ≤ c ∧ c ≤ '9' then some (c.toNat - 48)
  else if 'a' ≤ c ∧ c ≤ 'f' then some (c.toNat - 87)
  else if 'A' ≤ c ∧ c ≤ 'F' then some (c.toNat - 55)
  else none

/-- The bytes of a code point that four digits write. -/
def utf8 (code : Nat) : Option (List Char) :=
  if code < 128 then some [Char.ofNat code]
  else if code < 2048 then some [Char.ofNat (192 + code / 64), Char.ofNat (128 + code % 64)]
  else if 55296 ≤ code ∧ code < 57344 then none
  else some [Char.ofNat (224 + code / 4096), Char.ofNat (128 + code / 64 % 64),
    Char.ofNat (128 + code % 64)]

/-- The bytes that four hexadecimal digits stand for. -/
def codePoint (digits : List Char) : Option (List Char) := do
  let values ← digits.mapM hexValue
  utf8 (values.foldl (fun code value => 16 * code + value) 0)

/-- The first character of a token. -/
def begin (c : Char) : Option (List Token × Mode) :=
  if isBlank c then some ([], .between)
  else if c = '"' then some ([], .string [])
  else if isSymbol c then some ([.symbol c], .between)
  else if isLexemeChar c then some ([], .lexeme [c])
  else none

/-- One character. -/
def step (mode : Mode) (c : Char) : Option (List Token × Mode) :=
  match mode with
  | .between => begin c
  | .string text =>
    if c = '"' then some ([.string text], .between)
    else if c = '\\' then some ([], .escape text)
    else if isControl c then none
    else some ([], .string (text ++ [c]))
  | .escape text =>
    if c = 'u' then some ([], .unicode text [])
    else (unescape c).map fun found => ([], .string (text ++ [found]))
  | .unicode text digits =>
    if (hexValue c).isNone then none
    else if digits.length < 3 then some ([], .unicode text (digits ++ [c]))
    else (codePoint (digits ++ [c])).map fun found => ([], .string (text ++ found))
  | .lexeme text =>
    if isLexemeChar c then some ([], .lexeme (text ++ [c]))
    else (begin c).map fun found => (.lexeme text :: found.1, found.2)

/-- The end of the text. -/
def finish : Mode → Option (List Token)
  | .between => some []
  | .lexeme text => some [.lexeme text]
  | .string _ | .escape _ | .unicode _ _ => none

/-- The tokens of a text, character by character. -/
def lexer : Lexer Char Token Mode where
  step := step
  finish := finish

/-- The tokens of a text. -/
def lex (text : List Char) : Option (List Token) :=
  lexer.lexFrom .between text

/-! ## The gauge -/

/-- The least number of characters that a token is written with. -/
def cost : Token → Nat
  | .string text => text.length + 2
  | .symbol _ => 1
  | .lexeme text => text.length

/-- An escape has been paid for before it is known what it stands for. -/
def pending : Mode → Nat
  | .between => 0
  | .string text => text.length + 1
  | .escape text => text.length + 2
  | .unicode text digits => text.length + digits.length
  | .lexeme text => text.length

/-- A code unit has three bytes at most. -/
theorem length_utf8_le {code : Nat} {bytes : List Char} (h : utf8 code = some bytes) :
    bytes.length ≤ 3 := by
  unfold utf8 at h
  split_ifs at h <;> cases h <;> simp

/-- So has an escape. -/
theorem length_codePoint_le {digits bytes : List Char} (h : codePoint digits = some bytes) :
    bytes.length ≤ 3 := by
  obtain ⟨values, -, hbytes⟩ := Option.bind_eq_some_iff.1 h
  exact length_utf8_le hbytes

/-- A token begins with one character at most. -/
theorem cost_begin {c : Char} {tokens : List Token} {next : Mode}
    (h : begin c = some (tokens, next)) : Lexer.size cost tokens + pending next ≤ 1 := by
  unfold begin at h
  split_ifs at h <;> cases h <;> simp [cost, pending]

/-- A character adds one to what the tokens cost, at most. -/
theorem cost_step {mode next : Mode} {c : Char} {tokens : List Token}
    (h : step mode c = some (tokens, next)) :
    Lexer.size cost tokens + pending next ≤ pending mode + 1 := by
  cases mode with
  | between =>
      have hbegin := cost_begin h
      omega
  | string text =>
      simp only [step] at h
      split_ifs at h <;> cases h <;> simp [cost, pending]
  | escape text =>
      simp only [step] at h
      split_ifs at h
      · cases h
        simp [pending]
        omega
      · obtain ⟨found, -, hsame⟩ := Option.map_eq_some_iff.1 h
        cases hsame
        simp [pending]
  | unicode text digits =>
      -- the escape of six characters stands for three bytes at most
      simp only [step] at h
      split_ifs at h
      · cases h
        simp [pending]
        omega
      · obtain ⟨found, hfound, hsame⟩ := Option.map_eq_some_iff.1 h
        cases hsame
        have hlength := length_codePoint_le hfound
        simp only [Lexer.size_nil, pending, List.length_append]
        omega
  | lexeme text =>
      simp only [step] at h
      split_ifs at h
      · cases h
        simp [pending]
      · obtain ⟨found, hfound, hsame⟩ := Option.map_eq_some_iff.1 h
        cases hsame
        have hbegin := cost_begin hfound
        have hcost : cost (.lexeme text) = text.length := rfl
        have hpending : pending (.lexeme text) = text.length := rfl
        rw [Lexer.size_cons]
        omega

/-- The end of the text adds nothing. -/
theorem cost_finish {mode : Mode} {tokens : List Token} (h : finish mode = some tokens) :
    Lexer.size cost tokens ≤ pending mode := by
  cases mode <;> cases h <;> simp [cost, pending]

/-- The size of the tokens of a text. -/
def gauge : lexer.Gauge fun _ => 1 where
  cost := cost
  pending := pending
  step_le := cost_step
  finish_le := cost_finish

/-- An escape takes more than one character. -/
theorem cost_escape {text : List Char} {c : Char} {tokens : List Token} {next : Mode}
    (h : step (.escape text) c = some (tokens, next)) :
    Lexer.size cost tokens + pending next ≤ pending (.escape text) := by
  simp only [step] at h
  split_ifs at h
  · cases h
    simp [pending]
  · obtain ⟨found, -, hsame⟩ := Option.map_eq_some_iff.1 h
    cases hsame
    simp [pending]

/-- Control characters belong to no word. -/
theorem isLexemeChar_of_isControl {c : Char} (h : isControl c = true) :
    isLexemeChar c = false := by
  have hsmall : c.toNat < 32 := of_decide_eq_true h
  have halphanum : c.isAlphanum = false := by
    have hval : c.val.toNat < 32 := hsmall
    have hupper : 'A'.val.toNat = 65 := rfl
    have hlower : 'a'.val.toNat = 97 := rfl
    have hdigit : '0'.val.toNat = 48 := rfl
    simp only [Char.isAlphanum, Char.isAlpha, Char.isUpper, Char.isLower, Char.isDigit,
      Bool.or_eq_false_iff, Bool.and_eq_false_iff, decide_eq_false_iff_not,
      UInt32.le_iff_toNat_le, ge_iff_le]
    omega
  have hsign : c ∉ ['+', '-', '.'] := by
    simp only [List.mem_cons, List.not_mem_nil, or_false]
    rintro (rfl | rfl | rfl) <;> cases h
  simp [isLexemeChar, halphanum, hsign]

/-- Between tokens a control character is nothing or no text. -/
theorem begin_of_isControl {c : Char} (h : isControl c = true) {tokens : List Token}
    {next : Mode} (hbegin : begin c = some (tokens, next)) : tokens = [] ∧ next = .between := by
  have hquote : c ≠ '"' := by
    rintro rfl
    cases h
  have hsymbol : isSymbol c = false := by
    rw [Bool.eq_false_iff]
    intro hc
    simp only [isSymbol, List.mem_cons, List.not_mem_nil, or_false, decide_eq_true_eq] at hc
    rcases hc with rfl | rfl | rfl | rfl | rfl | rfl <;> cases h
  have hlexeme := isLexemeChar_of_isControl h
  simp only [begin, hquote, hsymbol, hlexeme, if_false, Bool.false_eq_true] at hbegin
  split at hbegin
  · cases hbegin
    exact ⟨rfl, rfl⟩
  · cases hbegin

/-- A control character outside of strings is a blank. -/
theorem cost_control {mode next : Mode} {c : Char} {tokens : List Token}
    (hmode : mode = .between ∨ ∃ text, mode = .lexeme text) (hc : isControl c = true)
    (h : step mode c = some (tokens, next)) :
    Lexer.size cost tokens + pending next ≤ pending mode := by
  rcases hmode with rfl | ⟨text, rfl⟩
  · obtain ⟨rfl, rfl⟩ := begin_of_isControl hc h
    simp [pending]
  · rw [step, isLexemeChar_of_isControl hc] at h
    obtain ⟨found, hfound, hsame⟩ := Option.map_eq_some_iff.1 h
    cases hsame
    obtain ⟨hnone, hbetween⟩ := begin_of_isControl hc hfound
    rw [hnone, hbetween]
    simp [cost, pending]

/-! ## Documents -/

/-- A JSON document. -/
inductive Value where
  | lexeme (text : List Char)
  | string (text : List Char)
  | array (items : List Value)
  | object (members : List (List Char × Value))

/-- The comma before every item but the first. -/
def comma : List Token :=
  [.symbol ',']

mutual

/-- The tokens of a document. -/
def Value.tokens : Value → List Token
  | .lexeme text => [.lexeme text]
  | .string text => [.string text]
  | .array items => .symbol '[' :: itemTokens [] items ++ [.symbol ']']
  | .object members => .symbol '\x7b' :: memberTokens [] members ++ [.symbol '\x7d']

/-- The tokens of items, each behind a comma but the first, which is behind `before`. -/
def itemTokens (before : List Token) : List Value → List Token
  | [] => []
  | item :: rest => before ++ item.tokens ++ itemTokens comma rest

/-- The tokens of members, each behind a comma but the first, which is behind `before`. -/
def memberTokens (before : List Token) : List (List Char × Value) → List Token
  | [] => []
  | (name, value) :: rest =>
    before ++ .string name :: .symbol ':' :: value.tokens ++ memberTokens comma rest

end

/-- The value of the last member with a name. -/
def get (name : List Char) : List (List Char × Value) → Option Value
  | [] => none
  | (other, value) :: rest =>
    match get name rest with
    | some found => some found
    | none => if other = name then some value else none

/-- A member is the first one or one of the others. -/
theorem get_cons_eq_some {name other : List Char} {found value : Value}
    {rest : List (List Char × Value)} (h : get name ((other, found) :: rest) = some value) :
    get name rest = some value ∨ other = name ∧ found = value := by
  rw [get] at h
  split at h
  · exact .inl (by rw [← h]; assumption)
  · split at h
    · exact .inr ⟨by assumption, Option.some.inj h⟩
    · cases h

/-- What is found is a member. -/
theorem mem_of_get {name : List Char} {value : Value} {members : List (List Char × Value)}
    (h : get name members = some value) : (name, value) ∈ members := by
  induction members with
  | nil => cases h
  | cons member rest ih =>
      obtain ⟨other, found⟩ := member
      rcases get_cons_eq_some h with hrest | ⟨rfl, rfl⟩
      · exact List.mem_cons_of_mem _ (ih hrest)
      · exact List.mem_cons_self

/-- With different names every member is found. -/
theorem get_eq_some {members : List (List Char × Value)} (h : (members.map Prod.fst).Nodup)
    {name : List Char} {value : Value} (hmem : (name, value) ∈ members) :
    get name members = some value := by
  induction members with
  | nil => cases hmem
  | cons member rest ih =>
      obtain ⟨other, found⟩ := member
      rw [List.map_cons, List.nodup_cons] at h
      rw [get]
      rcases List.mem_cons.1 hmem with hsame | hrest
      · obtain ⟨rfl, rfl⟩ := Prod.mk.inj hsame
        cases hget : get name rest with
        | none => exact if_pos rfl
        | some found =>
            have hname : name ∈ rest.map Prod.fst := List.mem_map_of_mem (mem_of_get hget)
            exact absurd hname h.1
      · rw [ih h.2 hrest]

/-- The value of a member of an object. -/
def Value.member (name : List Char) : Value → Option Value
  | .object members => get name members
  | _ => none

/-- The size of the tokens of a document. -/
def Value.size (value : Value) : Nat :=
  Lexer.size cost value.tokens

/-- The size of a member with the comma before it. -/
def memberSize (name : List Char) (value : Value) : Nat :=
  name.length + 4 + value.size

/-- The size of members with commas before them all. -/
def membersSize (members : List (List Char × Value)) : Nat :=
  (members.map fun member => memberSize member.1 member.2).sum

/-- What the tokens of members cost. -/
theorem size_memberTokens (before : List Token) (members : List (List Char × Value)) :
    Lexer.size cost (memberTokens before members) + (if members = [] then 0 else 1)
      = membersSize members + (if members = [] then 0 else Lexer.size cost before) := by
  induction members generalizing before with
  | nil => rfl
  | cons member rest ih =>
      have hcomma : Lexer.size cost comma = 1 := rfl
      have hrest := ih comma
      rw [hcomma] at hrest
      simp only [memberTokens, membersSize, memberSize, Value.size, Lexer.size_append,
        Lexer.size_cons, cost, List.map_cons, List.sum_cons, reduceCtorEq, if_false] at hrest ⊢
      omega

/-- What an object costs. -/
theorem Value.size_object {members : List (List Char × Value)} (h : members ≠ []) :
    (Value.object members).size = membersSize members + 1 := by
  have hmembers := size_memberTokens [] members
  rw [if_neg h, if_neg h, Lexer.size_nil] at hmembers
  simp only [Value.size, Value.tokens, Lexer.size_cons, Lexer.size_append, Lexer.size_nil, cost]
  omega

/-- Members with different names are all there. -/
theorem membersSize_le {wanted : List (List Char × Value)} (hnodup : (wanted.map Prod.fst).Nodup)
    {members : List (List Char × Value)}
    (h : ∀ member ∈ wanted, get member.1 members = some member.2) :
    membersSize wanted ≤ membersSize members := by
  induction members generalizing wanted with
  | nil =>
      cases wanted with
      | nil => exact Nat.le_refl _
      | cons member wanted => cases h member (by simp)
  | cons member rest ih =>
      obtain ⟨other, found⟩ := member
      have hsize : membersSize ((other, found) :: rest)
          = memberSize other found + membersSize rest := rfl
      -- the first member is one of those wanted, and then it is paid for, or it only adds
      by_cases hmem : (other, found) ∈ wanted
      · obtain ⟨before, behind, rfl⟩ := List.append_of_mem hmem
        have hperm : (before ++ (other, found) :: behind).Perm
            ((other, found) :: (before ++ behind)) := List.perm_middle
        have hdistinct := (hperm.map Prod.fst).nodup_iff.1 hnodup
        rw [List.map_cons, List.nodup_cons] at hdistinct
        have hothers : ∀ member ∈ before ++ behind, get member.1 rest = some member.2 := by
          intro member hmember
          refine (get_cons_eq_some
            (h member (hperm.mem_iff.2 (List.mem_cons_of_mem _ hmember)))).resolve_right ?_
          rintro ⟨hsame, -⟩
          have hname : member.1 ∈ (before ++ behind).map Prod.fst := List.mem_map_of_mem hmember
          exact hdistinct.1 (hsame ▸ hname)
        have hle := ih hdistinct.2 hothers
        have hsum : membersSize (before ++ (other, found) :: behind)
            = memberSize other found + membersSize (before ++ behind) :=
          (hperm.map fun member : List Char × Value => memberSize member.1 member.2).sum_nat
        omega
      · have hothers : ∀ member ∈ wanted, get member.1 rest = some member.2 := by
          intro member hmember
          refine (get_cons_eq_some (h member hmember)).resolve_right ?_
          rintro ⟨rfl, rfl⟩
          exact hmem hmember
        have hle := ih hnodup hothers
        omega

/-- An object is as large as members of it with different names. -/
theorem Value.membersSize_lt {wanted : List (List Char × Value)} (hne : wanted ≠ [])
    (hnodup : (wanted.map Prod.fst).Nodup) {document : Value}
    (h : ∀ member ∈ wanted, document.member member.1 = some member.2) :
    membersSize wanted < document.size := by
  obtain ⟨member, hmember⟩ := List.exists_mem_of_ne_nil wanted hne
  cases document with
  | object members =>
      have hmembers : members ≠ [] := by
        rintro rfl
        cases h member hmember
      rw [Value.size_object hmembers]
      exact Nat.lt_succ_of_le (membersSize_le hnodup h)
  | lexeme text => cases h member hmember
  | string text => cases h member hmember
  | array items => cases h member hmember

/-! ## Writing tokens -/

/-- A token with a symbol for the quotes of strings. -/
def Token.write {Symbol : Type} (quote : Symbol) (char : Char → Symbol) : Token → List Symbol
  | .string text => quote :: text.map char ++ [quote]
  | .symbol c => [char c]
  | .lexeme text => text.map char

/-- Tokens without blanks and escapes. -/
def write {Symbol : Type} (quote : Symbol) (char : Char → Symbol) (tokens : List Token) :
    List Symbol :=
  tokens.flatMap (Token.write quote char)

/-- The text of tokens. -/
def print (tokens : List Token) : List Char :=
  write '"' id tokens

/-- A text has as many symbols as its tokens cost. -/
theorem length_write {Symbol : Type} (quote : Symbol) (char : Char → Symbol)
    (tokens : List Token) : (write quote char tokens).length = Lexer.size cost tokens := by
  induction tokens with
  | nil => rfl
  | cons token tokens ih =>
      have htoken : (token.write quote char).length = cost token := by
        cases token <;> simp [Token.write, cost]
      rw [write, List.flatMap_cons, List.length_append, htoken, Lexer.size_cons, ← ih, write]

/-- Symbols may be renamed before or after writing. -/
theorem map_write {Symbol Other : Type} (f : Symbol → Other) (quote : Symbol)
    (char : Char → Symbol) (tokens : List Token) :
    (write quote char tokens).map f = write (f quote) (f ∘ char) tokens := by
  rw [write, write, List.map_flatMap]
  congr 1
  funext token
  cases token <;> simp [Token.write]

/-- The characters of a string have a property, a symbol is one, and a lexeme is a number or a
word. -/
def Token.Consists (plain : Char → Prop) : Token → Prop
  | .string text => ∀ c ∈ text, plain c
  | .symbol c => isSymbol c = true
  | .lexeme text => text ≠ [] ∧ ∀ c ∈ text, isLexemeChar c = true

/-- The tokens of an object are those of its members. -/
theorem forall_memberTokens {plain : Char → Prop} {before : List Token}
    (hbefore : ∀ token ∈ before, token.Consists plain) (members : List (List Char × Value)) :
    (∀ token ∈ memberTokens before members, token.Consists plain) ↔
      ∀ member ∈ members, (∀ c ∈ member.1, plain c) ∧
        ∀ token ∈ member.2.tokens, token.Consists plain := by
  have hcomma : ∀ token ∈ comma, token.Consists plain := by
    simp [comma, Token.Consists, isSymbol]
  induction members generalizing before with
  | nil => simp [memberTokens]
  | cons member rest ih =>
      have hcolon : (Token.symbol ':').Consists plain := rfl
      have hothers := ih hcomma
      rw [List.forall_mem_cons, memberTokens]
      simp only [List.forall_mem_append, List.forall_mem_cons, hcolon, true_and]
      constructor
      · rintro ⟨⟨-, hname, hvalue⟩, hrest⟩
        exact ⟨⟨hname, hvalue⟩, hothers.1 hrest⟩
      · rintro ⟨⟨hname, hvalue⟩, hrest⟩
        exact ⟨⟨hbefore, hname, hvalue⟩, hothers.2 hrest⟩

/-- The tokens of an object consist of the characters of its members. -/
theorem forall_tokens_object {plain : Char → Prop} (members : List (List Char × Value)) :
    (∀ token ∈ (Value.object members).tokens, token.Consists plain) ↔
      ∀ member ∈ members, (∀ c ∈ member.1, plain c) ∧
        ∀ token ∈ member.2.tokens, token.Consists plain := by
  have hopen : (Token.symbol '\x7b').Consists plain := rfl
  have hclose : (Token.symbol '\x7d').Consists plain := rfl
  have hnil : ∀ token ∈ ([] : List Token), token.Consists plain := by simp
  rw [Value.tokens, ← forall_memberTokens hnil members]
  simp [hopen, hclose, or_imp, forall_and]

/-- What is written of tokens has a property. -/
theorem forall_mem_write {Symbol : Type} {quote : Symbol} {char : Char → Symbol}
    (good : Symbol → Prop) (hquote : good quote)
    (hsymbol : ∀ c, isSymbol c = true → good (char c))
    (hlexeme : ∀ c, isLexemeChar c = true → good (char c)) {tokens : List Token}
    (h : ∀ token ∈ tokens, token.Consists fun c => good (char c)) :
    ∀ c ∈ write quote char tokens, good c := by
  intro c hc
  obtain ⟨token, htoken, hmem⟩ := List.mem_flatMap.1 hc
  have hconsists := h token htoken
  cases token with
  | string text =>
      simp only [Token.write, List.cons_append, List.mem_cons, List.mem_append, List.mem_map,
        List.not_mem_nil, or_false] at hmem
      rcases hmem with rfl | ⟨d, hd, rfl⟩ | rfl
      · exact hquote
      · exact hconsists d hd
      · exact hquote
  | symbol d =>
      rw [List.mem_singleton.1 hmem]
      exact hsymbol d hconsists
  | lexeme text =>
      obtain ⟨d, hd, rfl⟩ := List.mem_map.1 hmem
      exact hlexeme d (hconsists.2 d hd)

/-- The characters of the strings of tokens are written. -/
theorem consists_of_forall_mem_write {Symbol : Type} {quote : Symbol} {char : Char → Symbol}
    (good : Symbol → Prop) {tokens : List Token}
    (hwritten : ∀ token ∈ tokens, token.Consists fun _ => True)
    (h : ∀ c ∈ write quote char tokens, good c) :
    ∀ token ∈ tokens, token.Consists fun c => good (char c) := by
  intro token htoken
  have hconsists := hwritten token htoken
  cases token with
  | string text =>
      intro c hc
      refine h _ (List.mem_flatMap.2 ⟨.string text, htoken, ?_⟩)
      exact List.mem_append_left _ (List.mem_cons_of_mem _ (List.mem_map_of_mem hc))
  | symbol c => exact hconsists
  | lexeme text => exact hconsists

/-- Behind every lexeme stands a symbol. -/
def IsApart : List Token → Prop
  | [] => True
  | .lexeme _ :: .symbol c :: rest => IsApart (.symbol c :: rest)
  | .lexeme _ :: _ => False
  | .string _ :: rest => IsApart rest
  | .symbol _ :: rest => IsApart rest

/-- A symbol keeps words apart. -/
theorem isApart_symbol (c : Char) (rest : List Token) :
    IsApart (.symbol c :: rest) ↔ IsApart rest := Iff.rfl

mutual

/-- The lexemes of a document that a symbol follows stand before symbols. -/
theorem Value.isApart_tokens : ∀ (value : Value) (c : Char) (rest : List Token), IsApart rest →
    IsApart (value.tokens ++ .symbol c :: rest)
  | .lexeme text, c, rest, h => h
  | .string text, c, rest, h => h
  | .array items, c, rest, h => by
    have hitems := isApart_itemTokens items [] (fun _ => Iff.rfl) ']' (.symbol c :: rest) h
    rw [Value.tokens]
    simpa [isApart_symbol] using hitems
  | .object members, c, rest, h => by
    have hmembers :=
      isApart_memberTokens members [] (fun _ => Iff.rfl) '\x7d' (.symbol c :: rest) h
    rw [Value.tokens]
    simpa [isApart_symbol] using hmembers

/-- So do the tokens of items. -/
theorem isApart_itemTokens : ∀ (items : List Value) (before : List Token),
    (∀ rest, IsApart (before ++ rest) ↔ IsApart rest) → ∀ (c : Char) (rest : List Token),
      IsApart rest → IsApart (itemTokens before items ++ .symbol c :: rest)
  | [], before, hbefore, c, rest, h => h
  | item :: others, before, hbefore, c, rest, h => by
    have hothers := isApart_itemTokens others comma (fun _ => Iff.rfl) c rest h
    rw [itemTokens, List.append_assoc, List.append_assoc, hbefore]
    cases others with
    | nil => exact item.isApart_tokens c rest h
    | cons next others => exact item.isApart_tokens ',' _ hothers

/-- So do the tokens of members. -/
theorem isApart_memberTokens : ∀ (members : List (List Char × Value)) (before : List Token),
    (∀ rest, IsApart (before ++ rest) ↔ IsApart rest) → ∀ (c : Char) (rest : List Token),
      IsApart rest → IsApart (memberTokens before members ++ .symbol c :: rest)
  | [], before, hbefore, c, rest, h => h
  | (name, value) :: others, before, hbefore, c, rest, h => by
    have hothers := isApart_memberTokens others comma (fun _ => Iff.rfl) c rest h
    have hparts : memberTokens before ((name, value) :: others) ++ .symbol c :: rest
        = before ++ (.string name :: .symbol ':' ::
          (value.tokens ++ (memberTokens comma others ++ .symbol c :: rest))) := by
      simp [memberTokens]
    rw [hparts, hbefore]
    cases others with
    | nil => exact value.isApart_tokens c rest h
    | cons next others => exact value.isApart_tokens ',' _ hothers

end

/-- The words of an object are apart. -/
theorem isApart_tokens_object (members : List (List Char × Value)) :
    IsApart (Value.object members).tokens :=
  isApart_memberTokens members [] (fun _ => Iff.rfl) '\x7d' [] trivial

/-- A character that a string holds as it is. -/
def IsPlain (c : Char) : Prop :=
  c ≠ '"' ∧ c ≠ '\\' ∧ isControl c = false

/-- A plain string between quotes is a token. -/
theorem lexFrom_string {text : List Char} (h : ∀ c ∈ text, IsPlain c) (rest : List Char) :
    lexer.lexFrom .between ('"' :: text ++ '"' :: rest)
      = (lexer.lexFrom .between rest).map (.string text :: ·) := by
  have hopen : lexer.scan .between ['"'] = some ([], .string []) := rfl
  have htext : lexer.scan (.string []) text = some ([], .string ([] ++ text)) := by
    refine Lexer.scan_collect (fun seen c hc => ?_) []
    obtain ⟨hquote, hbackslash, hcontrol⟩ := h c hc
    show step (.string seen) c = _
    rw [step, if_neg hquote, if_neg hbackslash, hcontrol]
    rfl
  have hclose : lexer.scan (.string text) ['"'] = some ([.string text], .between) := rfl
  have hparts : '"' :: text ++ '"' :: rest = ['"'] ++ (text ++ (['"'] ++ rest)) := by
    simp
  rw [hparts, Lexer.lexFrom_append hopen, Lexer.lexFrom_append htext, List.nil_append,
    Lexer.lexFrom_append hclose]
  simp [Function.comp_def]

/-- A symbol is a token. -/
theorem begin_of_isSymbol {c : Char} (h : isSymbol c = true) :
    begin c = some ([.symbol c], .between) ∧ isLexemeChar c = false := by
  simp only [isSymbol, List.mem_cons, List.not_mem_nil, or_false, decide_eq_true_eq] at h
  rcases h with rfl | rfl | rfl | rfl | rfl | rfl <;> exact ⟨rfl, rfl⟩

/-- A symbol in front of the rest. -/
theorem lexFrom_symbol {c : Char} (h : isSymbol c = true) (rest : List Char) :
    lexer.lexFrom .between (c :: rest)
      = (lexer.lexFrom .between rest).map (.symbol c :: ·) := by
  have hscan : lexer.scan .between [c] = some ([.symbol c], .between) := by
    rw [Lexer.scan_cons (show lexer.step .between c = _ from (begin_of_isSymbol h).1)]
    rfl
  exact Lexer.lexFrom_append hscan

/-- A word begins with its first character. -/
theorem begin_of_isLexemeChar {c : Char} (h : isLexemeChar c = true) :
    begin c = some ([], .lexeme [c]) := by
  have hblank : isBlank c = false := by
    simp only [isBlank, List.mem_cons, List.not_mem_nil, or_false, decide_eq_false_iff_not]
    rintro (rfl | rfl | rfl | rfl) <;> cases h
  have hquote : c ≠ '"' := by
    rintro rfl
    cases h
  have hsymbol : isSymbol c = false := by
    rw [Bool.eq_false_iff]
    intro hc
    rw [(begin_of_isSymbol hc).2] at h
    cases h
  simp [begin, hblank, hquote, hsymbol, h]

/-- A word ends at a symbol. -/
theorem lexFrom_lexeme {text : List Char} (hne : text ≠ [])
    (htext : ∀ c ∈ text, isLexemeChar c = true) {c : Char} (h : isSymbol c = true)
    (rest : List Char) :
    lexer.lexFrom .between (text ++ c :: rest)
      = (lexer.lexFrom .between (c :: rest)).map (.lexeme text :: ·) := by
  cases text with
  | nil => exact absurd rfl hne
  | cons first others =>
      have hfirst : lexer.scan .between [first] = some ([], .lexeme [first]) := by
        rw [Lexer.scan_cons (show lexer.step .between first = _ from
          begin_of_isLexemeChar (htext first (by simp)))]
        rfl
      have hothers : lexer.scan (.lexeme [first]) others
          = some ([], .lexeme ([first] ++ others)) := by
        refine Lexer.scan_collect (fun seen d hd => ?_) [first]
        show step (.lexeme seen) d = _
        rw [step, if_pos (htext d (List.mem_cons_of_mem _ hd))]
      have hend : lexer.scan (.lexeme (first :: others)) [c]
          = some ([.lexeme (first :: others), .symbol c], .between) := by
        obtain ⟨hbegin, hlexeme⟩ := begin_of_isSymbol h
        have hstep : lexer.step (.lexeme (first :: others)) c
            = some ([.lexeme (first :: others), .symbol c], .between) := by
          show step (.lexeme (first :: others)) c = _
          rw [step, hlexeme, hbegin]
          rfl
        rw [Lexer.scan_cons hstep]
        rfl
      have hparts : first :: others ++ c :: rest = [first] ++ (others ++ ([c] ++ rest)) := by
        simp
      rw [hparts, Lexer.lexFrom_append hfirst, Lexer.lexFrom_append hothers,
        List.singleton_append,
        Lexer.lexFrom_append hend, lexFrom_symbol h]
      simp [Function.comp_def]

/-- Tokens that are written are read back. -/
theorem lex_print {tokens : List Token} (hapart : IsApart tokens)
    (h : ∀ token ∈ tokens, token.Consists IsPlain) : lex (print tokens) = some tokens := by
  rw [lex, print]
  induction tokens with
  | nil => rfl
  | cons token tokens ih =>
      have htoken := h token (by simp)
      have hothers := fun other hother => h other (List.mem_cons_of_mem token hother)
      cases token with
      | string text =>
          have hparts : write '"' id (.string text :: tokens)
              = '"' :: text ++ '"' :: write '"' id tokens := by
            simp [write, Token.write]
          rw [hparts, lexFrom_string htoken, ih hapart hothers]
          rfl
      | symbol c =>
          have hparts : write '"' id (.symbol c :: tokens) = c :: write '"' id tokens := by
            simp [write, Token.write]
          rw [hparts, lexFrom_symbol htoken, ih hapart hothers]
          rfl
      | lexeme text =>
          -- nothing but a symbol behind it ends a lexeme, and tokens that are apart have one
          -- there
          cases tokens with
          | nil => cases hapart
          | cons next tokens =>
              cases next with
              | symbol c =>
                  have hparts : write '"' id (.lexeme text :: .symbol c :: tokens)
                      = text ++ c :: write '"' id tokens := by
                    simp [write, Token.write]
                  have hnext : write '"' id (.symbol c :: tokens) = c :: write '"' id tokens := by
                    simp [write, Token.write]
                  have hrest := ih hapart hothers
                  rw [hnext] at hrest
                  rw [hparts, lexFrom_lexeme htoken.1 htoken.2 (h (.symbol c) (by simp)), hrest]
                  rfl
              | string text => cases hapart
              | lexeme text => cases hapart

end TallerII.Lib.JsonText
