import TallerII.Lib.Lexer

/-!
# Lexical structure of SQL

The tokens of a command as PostgreSQL reads them with standard strings: words, quoted names,
string literals, symbols, and between them blanks and comments. In a literal a doubled quote
stands for a quote, and literals with a line break between them are one; a literal can also stand
between dollar tags. Escape, Unicode, bit and national literals (a quote right behind one of the
words `e`, `b`, `x` and `n`) and parameters have no reading here. A command holds no NUL.
-/

namespace TallerII.Lib.Sql

/-- A token. The symbols of an operator are taken one by one. -/
inductive Token where
  | word (text : List Char)
  | name (text : List Char)
  | literal (text : List Char)
  | symbol (c : Char)
deriving Repr, DecidableEq

/-- What stands between the quote that ends a literal, or doubles, and the character that is
read. -/
inductive Gap where
  | direct
  | blank (lineBreak : Bool)
  | dash (lineBreak : Bool)
  | comment
deriving Repr, DecidableEq

/-- What the next character belongs to. -/
inductive Mode where
  | between
  | word (text : List Char)
  | dash
  | comment
  | slash
  | block (depth : Nat) (last : Char)
  | literal (text : List Char)
  | closed (text : List Char) (gap : Gap)
  | quoted (text : List Char)
  | closedName (text : List Char)
  | tag (text : List Char)
  | tagged (tag text : List Char)
deriving Repr, DecidableEq

/-- A character of a word. -/
def isWordChar (c : Char) : Bool :=
  c.isAlphanum || c = '_' || 128 ≤ c.toNat

/-- The ends of a line. -/
def isLineBreak (c : Char) : Bool :=
  c = '\n' || c = '\r'

/-- The characters between tokens. -/
def isBlank (c : Char) : Bool :=
  isLineBreak c || c = ' ' || c = '\t' || c.toNat = 11 || c.toNat = 12

/-- The words that make a literal of another kind of a quote right behind them. -/
def isMark (text : List Char) : Bool :=
  ["e", "E", "b", "B", "x", "X", "n", "N"].any fun mark => mark.toList = text

/-- The first character of a token. -/
def begin (c : Char) : List Token × Mode :=
  if isBlank c then ([], .between)
  else if c = '\'' then ([], .literal [])
  else if c = '"' then ([], .quoted [])
  else if c = '-' then ([], .dash)
  else if c = '/' then ([], .slash)
  else if c = '$' then ([], .tag [])
  else if isWordChar c then ([], .word [c])
  else ([.symbol c], .between)

/-- A token that ends before a character. -/
def ended (token : Token) (c : Char) : Option (List Token × Mode) :=
  some (token :: (begin c).1, (begin c).2)

/-- The character behind the quote of a literal, a doubled quote apart. -/
def stepGap (text : List Char) (c : Char) : Gap → Option (List Token × Mode)
  | .direct =>
    if isBlank c then some ([], .closed text (.blank (isLineBreak c)))
    else if c = '-' then some ([], .closed text (.dash false))
    else ended (.literal text) c
  | .blank lineBreak =>
    if c = '\'' && lineBreak then some ([], .literal text)
    else if isBlank c then some ([], .closed text (.blank (lineBreak || isLineBreak c)))
    else if c = '-' then some ([], .closed text (.dash lineBreak))
    else ended (.literal text) c
  | .dash _ =>
    if c = '-' then some ([], .closed text .comment)
    else some (.literal text :: .symbol '-' :: (begin c).1, (begin c).2)
  | .comment =>
    if isLineBreak c then some ([], .closed text (.blank true))
    else some ([], .closed text .comment)

/-- One character. -/
def step (mode : Mode) (c : Char) : Option (List Token × Mode) :=
  if c = Char.ofNat 0 then none
  else match mode with
  | .between => some (begin c)
  | .word text =>
    if isWordChar c || c = '$' then some ([], .word (text ++ [c]))
    else if c = '\'' && isMark text then none
    else ended (.word text) c
  | .dash => if c = '-' then some ([], .comment) else ended (.symbol '-') c
  | .comment => some ([], if isLineBreak c then .between else .comment)
  | .slash => if c = '*' then some ([], .block 0 ' ') else ended (.symbol '/') c
  | .block depth last =>
    if last = '*' && c = '/' then
      some ([], match depth with
        | 0 => .between
        | depth + 1 => .block depth ' ')
    else if last = '/' && c = '*' then some ([], .block (depth + 1) ' ')
    else some ([], .block depth c)
  | .literal text =>
    if c = '\'' then some ([], .closed text .direct) else some ([], .literal (text ++ [c]))
  | .closed text .direct =>
    if c = '\'' then some ([], .literal (text ++ [c])) else stepGap text c .direct
  | .closed text gap => stepGap text c gap
  | .quoted text =>
    if c = '"' then some ([], .closedName text) else some ([], .quoted (text ++ [c]))
  | .closedName text =>
    if c = '"' then some ([], .quoted (text ++ [c])) else ended (.name text) c
  | .tag text =>
    if c = '$' then some ([], .tagged text [])
    else if isWordChar c && (text ≠ [] || ! c.isDigit) then some ([], .tag (text ++ [c]))
    else none
  | .tagged tag text =>
    if '$' :: tag ++ ['$'] <:+ text ++ [c] then
      some ([.literal ((text ++ [c]).take ((text ++ [c]).length - (tag.length + 2)))], .between)
    else some ([], .tagged tag (text ++ [c]))

/-- The end of the command. -/
def finish : Mode → Option (List Token)
  | .between => some []
  | .word text => some [.word text]
  | .dash => some [.symbol '-']
  | .comment => some []
  | .slash => some [.symbol '/']
  | .closed text (.dash _) => some [.literal text, .symbol '-']
  | .closed text _ => some [.literal text]
  | .closedName text => some [.name text]
  | .block _ _ | .literal _ | .quoted _ | .tag _ | .tagged _ _ => none

/-- The tokens of a command, character by character. -/
def lexer : Lexer Char Token Mode where
  step := step
  finish := finish

/-- The tokens of a command. -/
def lex (text : List Char) : Option (List Token) :=
  lexer.lexFrom .between text

/-! ## The size of tokens -/

/-- A literal with a quote takes more characters than its own and two quotes. -/
def quoteCost (text : List Char) : Nat :=
  if '\'' ∈ text then 1 else 0

/-- The least number of characters that a token is written with. -/
def cost : Token → Nat
  | .word text => text.length
  | .name text => text.length + 2
  | .literal text => text.length + 2 + quoteCost text
  | .symbol _ => 1

/-- What an open token costs already. -/
def pending : Mode → Nat
  | .between | .comment | .block _ _ | .tag _ => 0
  | .word text => text.length
  | .dash | .slash => 1
  | .literal text => text.length + 1 + quoteCost text
  | .closed text (.dash _) => text.length + 3 + quoteCost text
  | .closed text _ => text.length + 2 + quoteCost text
  | .quoted text => text.length + 1
  | .closedName text => text.length + 2
  | .tagged _ text => text.length + 1

/-- Quotes cost one more character at most. -/
theorem quoteCost_le (text : List Char) : quoteCost text ≤ 1 := by
  unfold quoteCost
  split <;> omega

/-- A character that is no quote adds none. -/
theorem quoteCost_snoc (text : List Char) {c : Char} (h : c ≠ '\'') :
    quoteCost (text ++ [c]) = quoteCost text := by
  simp [quoteCost, h.symm]

/-- The first character of a token pays for it. -/
theorem cost_begin (c : Char) :
    ((begin c).1.map cost).sum + pending (begin c).2 ≤ 1 := by
  unfold begin
  split_ifs <;> simp [cost, pending, quoteCost]

/-- A character behind a token adds one to what it costs, at most. -/
theorem cost_ended {token : Token} {c : Char} {tokens : List Token} {next : Mode}
    (h : ended token c = some (tokens, next)) :
    (tokens.map cost).sum + pending next ≤ cost token + 1 := by
  cases h
  have hbegin := cost_begin c
  rw [List.map_cons, List.sum_cons]
  omega

/-- So does a character behind a literal. -/
theorem cost_stepGap {text : List Char} {c : Char} {gap : Gap} {tokens : List Token} {next : Mode}
    (h : stepGap text c gap = some (tokens, next)) :
    (tokens.map cost).sum + pending next ≤ pending (.closed text gap) + 1 := by
  have hbegin := cost_begin c
  cases gap with
  | direct =>
      simp only [stepGap] at h
      split_ifs at h
      · cases h; simp [pending]
      · cases h; simp [pending]; omega
      · exact cost_ended h
  | blank lineBreak =>
      simp only [stepGap] at h
      split_ifs at h
      · cases h; simp [pending]; omega
      · cases h; simp [pending]
      · cases h; simp [pending]; omega
      · exact cost_ended h
  | dash lineBreak =>
      simp only [stepGap] at h
      split_ifs at h
      · cases h; simp [pending]; omega
      · cases h
        have hpending : pending (.closed text (.dash lineBreak))
            = text.length + 3 + quoteCost text := rfl
        simp only [List.map_cons, List.sum_cons, cost]
        omega
  | comment =>
      simp only [stepGap] at h
      split_ifs at h
      · cases h; simp [pending]
      · cases h; simp [pending]

/-- In a block comment nothing is pending. -/
theorem cost_step_block {depth : Nat} {last c : Char} {tokens : List Token} {next : Mode}
    (h : step (.block depth last) c = some (tokens, next)) :
    (tokens.map cost).sum + pending next ≤ pending (.block depth last) + 1 := by
  unfold step at h
  dsimp only at h
  split_ifs at h
  · cases h
    cases depth <;> simp [pending]
  · cases h; simp [pending]
  · cases h; simp [pending]

/-- A character of a literal pays for itself, and the quote behind it for its end. -/
theorem cost_step_literal {text : List Char} {c : Char} {tokens : List Token} {next : Mode}
    (h : step (.literal text) c = some (tokens, next)) :
    (tokens.map cost).sum + pending next ≤ pending (.literal text) + 1 := by
  unfold step at h
  dsimp only at h
  split_ifs at h with hnul hquote
  · cases h; simp [pending]; omega
  · cases h
    simp [pending, quoteCost_snoc text hquote]
    omega

/-- A second quote right behind a literal goes on with it, as one of its characters. -/
theorem cost_step_closed {text : List Char} {gap : Gap} {c : Char} {tokens : List Token}
    {next : Mode}
    (h : step (.closed text gap) c = some (tokens, next)) :
    (tokens.map cost).sum + pending next ≤ pending (.closed text gap) + 1 := by
  unfold step at h
  split at h
  · cases h
  cases gap with
  | direct =>
      simp only at h
      split_ifs at h
      · cases h
        have hquote := quoteCost_le (text ++ [c])
        simp [pending]
        omega
      · exact cost_stepGap h
  | _ => exact cost_stepGap h

/-- A literal between tags may hold quotes, which cost one more; the closing tag pays for it. -/
theorem cost_step_tagged {tag text : List Char} {c : Char} {tokens : List Token} {next : Mode}
    (h : step (.tagged tag text) c = some (tokens, next)) :
    (tokens.map cost).sum + pending next ≤ pending (.tagged tag text) + 1 := by
  unfold step at h
  dsimp only at h
  split_ifs at h with hnul hend
  · cases h
    have hlength := hend.length_le
    have hquote := quoteCost_le
      ((text ++ [c]).take ((text ++ [c]).length - (tag.length + 2)))
    simp only [List.length_append, List.length_cons, List.length_nil] at hlength
    simp only [List.map_cons, List.map_nil, List.sum_cons, List.sum_nil, cost, pending,
      List.length_take, List.length_append, List.length_cons, List.length_nil] at hquote ⊢
    omega
  · cases h; simp [pending]

/-- A character pays for what the tokens and the mode hold more. -/
theorem cost_step {mode next : Mode} {c : Char} {tokens : List Token}
    (h : step mode c = some (tokens, next)) :
    (tokens.map cost).sum + pending next ≤ pending mode + 1 := by
  cases mode with
  | block depth last => exact cost_step_block h
  | literal text => exact cost_step_literal h
  | closed text gap => exact cost_step_closed h
  | tagged tag text => exact cost_step_tagged h
  | between =>
      have hbegin := cost_begin c
      simp only [step] at h
      split_ifs at h
      rwa [Option.some.inj h] at hbegin
  | word text =>
      simp only [step] at h
      split_ifs at h
      · cases h; simp [pending]
      · exact cost_ended h
  | dash =>
      simp only [step] at h
      split_ifs at h
      · cases h; simp [pending]
      · exact cost_ended h
  | comment =>
      simp only [step] at h
      split_ifs at h
      · cases h; simp [pending]
      · cases h; simp [pending]
  | slash =>
      simp only [step] at h
      split_ifs at h
      · cases h; simp [pending]
      · exact cost_ended h
  | quoted text =>
      simp only [step] at h
      split_ifs at h
      · cases h; simp [pending]
      · cases h; simp [pending]
  | closedName text =>
      simp only [step] at h
      split_ifs at h
      · cases h; simp [pending]
      · exact cost_ended h
  | tag text =>
      simp only [step] at h
      split_ifs at h
      · cases h; simp [pending]
      · cases h; simp [pending]

/-- The end of the command adds nothing. -/
theorem cost_finish {mode : Mode} {tokens : List Token} (h : finish mode = some tokens) :
    (tokens.map cost).sum ≤ pending mode := by
  cases mode with
  | closed text gap =>
      cases gap with
      | dash lineBreak =>
          cases h
          simp only [List.map_cons, List.map_nil, List.sum_cons, List.sum_nil, cost, pending]
          omega
      | _ => cases h; simp [cost, pending]
  | _ => cases h <;> simp [cost, pending]

/-- The size of the tokens of a command. -/
def gauge : lexer.Gauge fun _ => 1 where
  cost := cost
  pending := pending
  step_le := cost_step
  finish_le := cost_finish

/-! ## Literals -/

/-- A text that stands for itself between quotes. -/
def IsPlain (text : List Char) : Prop :=
  '\'' ∉ text ∧ Char.ofNat 0 ∉ text

/-- Whether a text is plain can be computed. -/
instance (text : List Char) : Decidable (IsPlain text) :=
  inferInstanceAs (Decidable (_ ∧ _))

/-- Only a text with quotes costs more than its characters. -/
theorem quoteCost_eq_zero {text : List Char} : quoteCost text = 0 ↔ '\'' ∉ text := by
  simp [quoteCost]

/-- A plain text goes on with the literal. -/
theorem scan_plain {text : List Char} (h : IsPlain text) (seen : List Char) :
    lexer.scan (.literal seen) text = some ([], .literal (seen ++ text)) := by
  refine Lexer.scan_collect (fun seen c hc => ?_) seen
  have hnul : c ≠ Char.ofNat 0 := fun hsame => h.2 (hsame ▸ hc)
  have hquote : c ≠ '\'' := fun hsame => h.1 (hsame ▸ hc)
  show step (.literal seen) c = _
  simp only [step, if_neg hnul, if_neg hquote]

/-- A command with a NUL has no tokens. -/
theorem step_nul (mode : Mode) : lexer.step mode (Char.ofNat 0) = none := rfl

end TallerII.Lib.Sql
