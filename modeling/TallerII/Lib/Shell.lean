import TallerII.Lib.Lexer

/-!
# Words of a shell command

How a POSIX shell reads the words of a command line: blanks end a word, quotes and backslashes
keep what they hold in it, and an operator ends a command. A lexing gives the characters of the
words and where they end. What would be expanded, a dollar sign or a backquote outside of single
quotes, or a pattern or a tilde outside of quotes, has no reading here, since it depends on the
environment. A command line holds no NUL.
-/

namespace TallerII.Lib.Shell

/-- A part of the reading. -/
inductive Token where
  | letter (c : Char)
  | endWord
  | operator (c : Char)
deriving Repr, DecidableEq

/-- What the next character belongs to. `escaped` is behind a backslash outside of quotes, within
a word or before it. -/
inductive Mode where
  | between
  | comment
  | word
  | escaped (inWord : Bool)
  | double
  | doubleEscaped
  | single
deriving Repr, DecidableEq

/-- The characters that end a word and are no part of one. -/
def isOperator (c : Char) : Bool :=
  c ∈ ['\n', ';', '&', '|', '<', '>', '(', ')']

/-- The characters between words. -/
def isBlank (c : Char) : Bool :=
  c = ' ' || c = '\t'

/-- The characters that are expanded in double quotes. -/
def isExpanded (c : Char) : Bool :=
  c = '$' || c.toNat = 96

/-- The characters that are expanded outside of quotes. -/
def isPattern (c : Char) : Bool :=
  isExpanded c || c ∈ ['*', '?', '[', '~']

/-- The characters that a backslash in double quotes quotes, a line break apart. -/
def isQuotable (c : Char) : Bool :=
  isExpanded c || c = '"' || c = '\\'

/-- One character within a word, outside of quotes. -/
def stepWord (c : Char) : Option (List Token × Mode) :=
  if isPattern c then none
  else if c = '\\' then some ([], .escaped true)
  else if c = '"' then some ([], .double)
  else if c = '\'' then some ([], .single)
  else if isBlank c then some ([.endWord], .between)
  else if isOperator c then some ([.endWord, .operator c], .between)
  else some ([.letter c], .word)

/-- One character between words. -/
def stepBetween (c : Char) : Option (List Token × Mode) :=
  if isPattern c then none
  else if c = '\\' then some ([], .escaped false)
  else if c = '"' then some ([], .double)
  else if c = '\'' then some ([], .single)
  else if isBlank c then some ([], .between)
  else if isOperator c then some ([.operator c], .between)
  else if c = '#' then some ([], .comment)
  else some ([.letter c], .word)

/-- One character. -/
def step (mode : Mode) (c : Char) : Option (List Token × Mode) :=
  if c = Char.ofNat 0 then none
  else match mode with
  | .between => stepBetween c
  | .comment => some (if c = '\n' then ([.operator c], .between) else ([], .comment))
  | .word => stepWord c
  | .escaped inWord =>
    some (if c = '\n' then ([], if inWord then .word else .between) else ([.letter c], .word))
  | .double =>
    if c = '"' then some ([], .word)
    else if c = '\\' then some ([], .doubleEscaped)
    else if isExpanded c then none
    else some ([.letter c], .double)
  | .doubleEscaped =>
    if isQuotable c then some ([.letter c], .double)
    else if c = '\n' then some ([], .double)
    else some ([.letter '\\', .letter c], .double)
  | .single => if c = '\'' then some ([], .word) else some ([.letter c], .single)

/-- The end of the command line. -/
def finish : Mode → Option (List Token)
  | .between | .comment => some []
  | .word => some [.endWord]
  | .escaped _ | .double | .doubleEscaped | .single => none

/-- The words of a command, character by character. -/
def lexer : Lexer Char Token Mode where
  step := step
  finish := finish

/-- The reading of a command line. -/
def lex (text : List Char) : Option (List Token) :=
  lexer.lexFrom .between text

/-- The reading of one word. -/
def wordTokens (word : List Char) : List Token :=
  word.map Token.letter ++ [.endWord]

/-- The command line is one simple command with the words. -/
def IsCommand (text : List Char) (words : List (List Char)) : Prop :=
  lex text = some (words.flatMap wordTokens)

/-- Whether a text is a command with these words can be computed. -/
instance (text : List Char) (words : List (List Char)) : Decidable (IsCommand text words) :=
  inferInstanceAs (Decidable (_ = _))

/-- A NUL is never accepted. -/
theorem step_nul (mode : Mode) : lexer.step mode (Char.ofNat 0) = none := rfl

/-! ## The gauge -/

/-- A word is paid for by its characters and by what ends it. -/
def cost : Token → Nat
  | .letter _ => 1
  | .endWord => 1
  | .operator _ => 0

/-- What an open word costs already. -/
def pending : Mode → Nat
  | .between | .word | .escaped _ | .doubleEscaped => 1
  | .comment | .double | .single => 0

/-- Outside of quotes every quote is unneeded. -/
def IsLoose (mode : Mode) : Prop :=
  mode = .between ∨ mode = .word

/-- A character within a word adds one, or stands for two that are loose. -/
theorem cost_stepWord {c : Char} {tokens : List Token} {next : Mode}
    (h : stepWord c = some (tokens, next)) :
    Lexer.size cost tokens + pending next ≤ 1 ∨
      Lexer.size cost tokens + pending next = 2 ∧ c ≠ '"' ∧ IsLoose next := by
  unfold stepWord at h
  split_ifs at h <;> cases h <;> simp_all [cost, pending, IsLoose]

/-- So does a character between words. -/
theorem cost_stepBetween {c : Char} {tokens : List Token} {next : Mode}
    (h : stepBetween c = some (tokens, next)) :
    Lexer.size cost tokens + pending next ≤ 1 ∨
      Lexer.size cost tokens + pending next = 2 ∧ c ≠ '"' ∧ IsLoose next := by
  unfold stepBetween at h
  split_ifs at h <;> cases h <;> simp_all [cost, pending, IsLoose]

/-- A character adds one to what the words cost, at most. -/
theorem cost_step {mode next : Mode} {c : Char} {tokens : List Token}
    (h : step mode c = some (tokens, next)) :
    Lexer.size cost tokens + pending next ≤ pending mode + 1 := by
  unfold step at h
  split at h
  · cases h
  cases mode with
  | between =>
      have hpending : pending .between = 1 := rfl
      rcases cost_stepBetween h with hless | ⟨hsame, -⟩ <;> omega
  | comment => split_ifs at h <;> cases h <;> simp [cost, pending]
  | word =>
      have hpending : pending .word = 1 := rfl
      rcases cost_stepWord h with hless | ⟨hsame, -⟩ <;> omega
  | escaped inWord => cases inWord <;> split_ifs at h <;> cases h <;> simp [cost, pending]
  | double => simp only at h; split_ifs at h <;> cases h <;> simp [cost, pending]
  | doubleEscaped => simp only at h; split_ifs at h <;> cases h <;> simp [cost, pending]
  | single => simp only at h; split_ifs at h <;> cases h <;> simp [cost, pending]

/-- The end of the command adds nothing. -/
theorem cost_finish {mode : Mode} {tokens : List Token} (h : finish mode = some tokens) :
    Lexer.size cost tokens ≤ pending mode := by
  cases mode <;> cases h <;> decide

/-- The size of the reading of a command line. -/
def gauge : lexer.Gauge fun _ => 1 where
  cost := cost
  pending := pending
  step_le := cost_step
  finish_le := cost_finish

/-- Where all was needed, the reading stays outside of quotes. -/
theorem isLoose_step {mode next : Mode} {c : Char} {tokens : List Token} (h : IsLoose mode)
    (hstep : step mode c = some (tokens, next))
    (htight : Lexer.size cost tokens + pending next = pending mode + 1) :
    c ≠ '"' ∧ IsLoose next := by
  unfold step at hstep
  split at hstep
  · cases hstep
  rcases h with rfl | rfl
  · rcases cost_stepBetween hstep with hless | ⟨-, hloose⟩
    · have hpending : pending .between = 1 := rfl
      omega
    · exact hloose
  · rcases cost_stepWord hstep with hless | ⟨-, hloose⟩
    · have hpending : pending .word = 1 := rfl
      omega
    · exact hloose

/-! ## Words in double quotes -/

/-- A character in double quotes stays as it is: a backslash before one that it does not quote,
and what is neither expanded nor the end of the quotes. -/
def staysAt (c : Char) (rest : List Char) : Bool :=
  if c = '\\' then rest.head?.any fun next => next ≠ '\\' && next ≠ '\n'
  else c ≠ Char.ofNat 0 && c ≠ '"' && ! isExpanded c

/-- A text that stands for itself in double quotes. -/
def isInert : List Char → Bool
  | [] => true
  | c :: rest => staysAt c rest && isInert rest

/-- A text is inert when its first character stays and the rest is inert. -/
theorem isInert_cons {c : Char} {rest : List Char} :
    isInert (c :: rest) = true ↔ staysAt c rest = true ∧ isInert rest = true := by
  rw [isInert, Bool.and_eq_true]

/-- Which characters stay within double quotes. -/
theorem staysAt_of_ne {c : Char} (h : c ≠ '\\') (rest : List Char) :
    staysAt c rest = true ↔ c ≠ Char.ofNat 0 ∧ c ≠ '"' ∧ isExpanded c = false := by
  simp [staysAt, h, and_assoc]

/-- A backslash stays unless it escapes what follows. -/
theorem staysAt_backslash {c : Char} {rest : List Char} :
    staysAt '\\' (c :: rest) = true ↔ c ≠ '\\' ∧ c ≠ '\n' := by
  simp [staysAt]

/-- An inert text in front changes nothing. -/
theorem isInert_append {text : List Char} (h : isInert text = true) (rest : List Char) :
    isInert (text ++ rest) = isInert rest := by
  induction text with
  | nil => rfl
  | cons c text ih =>
      obtain ⟨hstays, htext⟩ := isInert_cons.1 h
      have hsame : staysAt c (text ++ rest) = true := by
        cases text with
        | nil =>
            have hplain : c ≠ '\\' := by
              rintro rfl
              cases hstays
            exact (staysAt_of_ne hplain _).2 ((staysAt_of_ne hplain _).1 hstays)
        | cons next text => exact hstays
      rw [List.cons_append, isInert, hsame, Bool.true_and, ih htext]

/-- An inert text has no NUL. -/
theorem not_mem_of_isInert {text : List Char} (h : isInert text = true) :
    Char.ofNat 0 ∉ text := by
  induction text with
  | nil => simp
  | cons c text ih =>
      obtain ⟨hstays, htext⟩ := isInert_cons.1 h
      rw [List.mem_cons, not_or]
      refine ⟨?_, ih htext⟩
      rintro rfl
      cases hstays

/-- An inert text is read letter by letter, also behind a backslash. -/
theorem scan_isInert (text : List Char) :
    (isInert text = true →
        lexer.scan .double text = some (text.map Token.letter, .double)) ∧
      (isInert ('\\' :: text) = true →
        lexer.scan .doubleEscaped text = some (('\\' :: text).map Token.letter, .double)) := by
  induction text with
  | nil => exact ⟨fun _ => rfl, fun h => by cases h⟩
  | cons c text ih =>
      constructor
      · intro h
        obtain ⟨hstays, htext⟩ := isInert_cons.1 h
        by_cases hbackslash : c = '\\'
        · subst hbackslash
          rw [Lexer.scan_cons (show lexer.step .double '\\' = some ([], .doubleEscaped) from rfl),
            ih.2 h]
          rfl
        · obtain ⟨hnul, hquote, hexpanded⟩ := (staysAt_of_ne hbackslash _).1 hstays
          have hstep : lexer.step .double c = some ([.letter c], .double) := by
            simp [lexer, step, hnul, hquote, hbackslash, hexpanded]
          rw [Lexer.scan_cons hstep, ih.1 htext]
          rfl
      · intro h
        obtain ⟨hstays, hrest⟩ := isInert_cons.1 h
        obtain ⟨hbackslash, hbreak⟩ := staysAt_backslash.1 hstays
        obtain ⟨hnext, htext⟩ := isInert_cons.1 hrest
        obtain ⟨hnul, hquote, hexpanded⟩ := (staysAt_of_ne hbackslash _).1 hnext
        have hstep : lexer.step .doubleEscaped c
            = some ([.letter '\\', .letter c], .double) := by
          simp [lexer, step, isQuotable, hnul, hquote, hbackslash, hexpanded, hbreak]
        rw [Lexer.scan_cons hstep, ih.1 htext]
        rfl

/-- When every character up to the closing quote is needed, the text before it is inert. -/
theorem isInert_of_tight (text : List Char) :
    (gauge.Tight .double (text ++ ['"']) → isInert text = true) ∧
      (gauge.Tight .doubleEscaped (text ++ ['"']) → isInert ('\\' :: text) = true) := by
  induction text with
  | nil =>
      refine ⟨fun _ => rfl, fun h => ?_⟩
      obtain ⟨first, next, hstep, htight, -⟩ := h.step
      cases hstep
      cases htight
  | cons c text ih =>
      constructor
      · intro h
        obtain ⟨first, next, hstep, -, hrest⟩ := h.step
        simp only [lexer, step] at hstep
        split_ifs at hstep with hnul hquote hbackslash hexpanded
        · cases hstep
          -- the quote closes the string before the last one does
          exact absurd hrest
            (Lexer.Gauge.not_tight_of_mem IsLoose isLoose_step (.inr rfl) (by simp))
        · cases hstep
          rw [hbackslash]
          -- a backslash is judged together with the character behind it
          exact ih.2 hrest
        · cases hstep
          have hstays : staysAt c text = true := (staysAt_of_ne hbackslash text).2
            ⟨hnul, hquote, Bool.eq_false_iff.2 hexpanded⟩
          exact isInert_cons.2 ⟨hstays, ih.1 hrest⟩
      · intro h
        obtain ⟨first, next, hstep, htight, hrest⟩ := h.step
        simp only [lexer, step] at hstep
        split_ifs at hstep with hnul hquotable hbreak
        · cases hstep
          cases htight
        · cases hstep
          cases htight
        · cases hstep
          simp only [isQuotable, Bool.or_eq_true, decide_eq_true_eq, not_or] at hquotable
          obtain ⟨⟨hexpanded, hquote⟩, hbackslash⟩ := hquotable
          have hstays : staysAt c text = true := (staysAt_of_ne hbackslash text).2
            ⟨hnul, hquote, Bool.eq_false_iff.2 hexpanded⟩
          exact isInert_cons.2 ⟨staysAt_backslash.2 ⟨hbackslash, hbreak⟩,
            isInert_cons.2 ⟨hstays, ih.1 hrest⟩⟩

/-- What the tokens of a word cost. -/
theorem size_wordTokens (word : List Char) :
    Lexer.size cost (wordTokens word) = word.length + 1 := by
  have hletters : Lexer.size cost (word.map Token.letter) = word.length := by
    simp [Lexer.size, Function.comp_def, cost]
  rw [wordTokens, Lexer.size_append, hletters]
  rfl

/-- A word in double quotes is recovered when it is inert. -/
theorem lexFrom_double_iff (text : List Char) :
    lexer.lexFrom .double (text ++ ['"']) = some (wordTokens text) ↔ isInert text = true := by
  constructor
  · intro h
    refine (isInert_of_tight text).1 ⟨wordTokens text, h, ?_⟩
    rw [show gauge.cost = cost from rfl, size_wordTokens, Lexer.size_one, List.length_append]
    exact Nat.le_of_eq (Nat.zero_add _)
  · intro h
    rw [Lexer.lexFrom_append ((scan_isInert text).1 h)]
    rfl

/-- A shorter text is not read as the word. -/
theorem length_le_of_lexFrom_double {word text : List Char}
    (h : lexer.lexFrom .double text = some (wordTokens word)) :
      word.length + 1 ≤ text.length := by
  have hsize := gauge.lexFrom_le h
  rw [show gauge.cost = cost from rfl, size_wordTokens, Lexer.size_one] at hsize
  exact Nat.le_trans hsize (Nat.le_of_eq (Nat.zero_add _))

/-! ## Words without quotes -/

/-- A text that stands for itself as a word. -/
def isBare : List Char → Bool
  | [] => false
  | c :: rest => step .between c = some ([.letter c], .word) &&
      rest.all fun d => step .word d = some ([.letter d], .word)

/-- A bare text is one open word. -/
theorem scan_isBare {text : List Char} (h : isBare text = true) :
    lexer.scan .between text = some (text.map Token.letter, .word) := by
  cases text with
  | nil => cases h
  | cons c rest =>
      obtain ⟨hfirst, hrest⟩ := Bool.and_eq_true_iff.1 h
      have hword : lexer.scan .word rest = some (rest.map Token.letter, .word) := by
        induction rest with
        | nil => rfl
        | cons d rest ih =>
            have hparts : step .word d = some ([.letter d], .word) ∧ rest.all (fun d =>
                step .word d = some ([.letter d], .word)) = true := by
              simpa using hrest
            rw [Lexer.scan_cons (show lexer.step .word d = _ from hparts.1),
              ih (by simp [isBare, of_decide_eq_true hfirst, hparts.2]) hparts.2]
            rfl
      rw [Lexer.scan_cons (show lexer.step .between c = _ from of_decide_eq_true hfirst), hword]
      rfl

/-! ## Reading a word with another lexer -/

variable {Part Inner : Type}

/-- Reads the letters of one word with a lexer, up to a mark at its end. -/
def argument (inner : Lexer Char Part Inner) : Lexer Token (Option Part) (Option Inner) where
  step
    | some mode, .letter c =>
      (inner.step mode c).map fun found => (found.1.map some, some found.2)
    | some mode, .endWord =>
      (inner.finish mode).map fun parts => (parts.map some ++ [none], none)
    | _, _ => none
  finish
    | none => some []
    | some _ => none

/-- Letters are handed to the inner lexer. -/
theorem scan_argument (inner : Lexer Char Part Inner) (mode : Inner) (text : List Char) :
    (argument inner).scan (some mode) (text.map Token.letter)
      = (inner.scan mode text).map fun found => (found.1.map some, some found.2) := by
  induction text generalizing mode with
  | nil => rfl
  | cons c text ih =>
      rw [List.map_cons]
      cases hstep : inner.step mode c with
      | none =>
          rw [Lexer.scan_cons_eq_none hstep]
          exact Lexer.scan_cons_eq_none (by simp [argument, hstep])
      | some found =>
          obtain ⟨first, next⟩ := found
          rw [Lexer.scan_cons hstep, Lexer.scan_cons
            (show (argument inner).step (some mode) (.letter c)
              = some (first.map some, some next) by simp [argument, hstep]), ih, Option.map_map,
            Option.map_map]
          simp [Function.comp_def]

/-- A word is read as its text is. -/
theorem lexFrom_argument (inner : Lexer Char Part Inner) (mode : Inner) (word : List Char) :
    (argument inner).lexFrom (some mode) (wordTokens word)
      = (inner.lexFrom mode word).map fun parts => parts.map some ++ [none] := by
  have hword := scan_argument inner mode word
  rw [wordTokens, Lexer.lexFrom]
  cases hscan : inner.scan mode word with
  | none =>
      rw [hscan] at hword
      rw [Lexer.scan_append_eq_none hword, Lexer.lexFrom, hscan]
      rfl
  | some found =>
      obtain ⟨first, last⟩ := found
      rw [hscan] at hword
      rw [Lexer.scan_append hword, Lexer.lexFrom, hscan]
      cases hfinish : inner.finish last with
      | none =>
          rw [Lexer.scan_cons_eq_none (show (argument inner).step (some last) .endWord = none by
            simp [argument, hfinish])]
          simp [hfinish]
      | some ending =>
          rw [Lexer.scan_cons (show (argument inner).step (some last) .endWord
            = some (ending.map some ++ [none], none) by simp [argument, hfinish])]
          simp [argument, hfinish]

/-- A word is gauged with its letters and its end. -/
def argumentGauge {inner : Lexer Char Part Inner} (other : inner.Gauge fun _ => 1) :
    (argument inner).Gauge cost where
  cost part := part.elim 1 other.cost
  pending mode := mode.elim 0 other.pending
  step_le := by
    intro mode token parts next h
    cases mode with
    | none => cases h
    | some mode =>
        cases token with
        | letter c =>
            obtain ⟨found, hfound, hsame⟩ := Option.map_eq_some_iff.1 h
            cases hsame
            have hle := other.step_le hfound
            simpa [Lexer.size, Function.comp_def, cost] using hle
        | endWord =>
            obtain ⟨found, hfound, hsame⟩ := Option.map_eq_some_iff.1 h
            cases hsame
            have hle := other.finish_le hfound
            simpa [Lexer.size, Function.comp_def, cost] using hle
        | operator c => cases h
  finish_le := by
    intro mode parts h
    cases mode with
    | none => cases h; simp
    | some mode => cases h

end TallerII.Lib.Shell
