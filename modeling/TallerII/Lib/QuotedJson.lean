import TallerII.Lib.JsonText
import TallerII.Lib.Shell

/-!
# JSON in a word in double quotes

A JSON text can be written into a shell word in double quotes, with a backslash before each of its
quotes. What is written between the quotes is a list of atoms: characters, and quotes with their
backslash. The shell takes a character for each atom, and JSON takes at most one unit of a token
for each, whatever the characters are: even where an atom is read outside of the double quotes and
gives two characters, they are one unit of a string. So a word that is as large as its atoms has
no character that one of the two languages takes for something else (`isClean_of_tight`).
-/

namespace TallerII.Lib.QuotedJson

/-- A character, or a quote with its backslash. -/
inductive Atom where
  | char (c : Char)
  | quote
deriving DecidableEq

namespace Atom

/-- The text of an atom. -/
def chars : Atom → List Char
  | char c => [c]
  | quote => ['\\', '"']

/-- What an atom stands for. -/
def letter : Atom → Char
  | char c => c
  | quote => '"'

end Atom

/-- A character that is itself in double quotes and in a JSON string. -/
def IsClean (c : Char) : Prop :=
  JsonText.IsPlain c ∧ Shell.isExpanded c = false

/-- Whether a character is clean can be computed. -/
instance (c : Char) : Decidable (IsClean c) :=
  inferInstanceAs (Decidable ((_ ∧ _ ∧ _) ∧ _))

/-- An atom that stands for one character in both. -/
def Atom.IsClean : Atom → Prop
  | char c => QuotedJson.IsClean c
  | quote => True

/-! ## Reading atoms -/

/-- The shell on atoms. -/
def words : Lexer Atom Shell.Token Shell.Mode :=
  Shell.lexer.through Atom.chars

/-- The lexer of the tokens of the word. -/
def inner : Lexer Shell.Token (Option JsonText.Token) (Option JsonText.Mode) :=
  Shell.argument JsonText.lexer

/-- The JSON tokens of a word that is written with atoms, and a mark at its end. -/
def reader : Lexer Atom (Option JsonText.Token) (Shell.Mode × Option JsonText.Mode) :=
  words.comp inner

/-- A character is read as the shell reads it. -/
theorem words_step_char (mode : Shell.Mode) (c : Char) :
    words.step mode (.char c) = Shell.step mode c := by
  show Shell.lexer.scan mode [c] = _
  cases hstep : Shell.step mode c with
  | none => exact Lexer.scan_cons_eq_none hstep
  | some found =>
      rw [Lexer.scan_cons (show Shell.lexer.step mode c = some (found.1, found.2) from hstep)]
      simp

/-- What the shell makes of a quote with its backslash. -/
theorem words_step_quote {mode next : Shell.Mode} {tokens : List Shell.Token}
    (h : words.step mode .quote = some (tokens, next)) :
    tokens = [] ∧ next = mode ∧ mode = .comment ∨
      (∃ c, tokens = [.letter c]) ∧
        Shell.pending next ≤ Shell.pending mode ∧
        (mode = .double → tokens = [.letter '"'] ∧ next = .double) ∧
        (Shell.IsLoose mode → Shell.IsLoose next) ∨
      tokens = [.letter '\\', .letter '"'] ∧ next = mode ∧ mode = .single := by
  cases mode with
  | between => cases h; exact .inr (.inl ⟨⟨_, rfl⟩, by decide, by simp, fun _ => .inr rfl⟩)
  | comment => cases h; exact .inl ⟨rfl, rfl, rfl⟩
  | word => cases h; exact .inr (.inl ⟨⟨_, rfl⟩, by decide, by simp, fun _ => .inr rfl⟩)
  | escaped inWord =>
      cases h
      refine .inr (.inl ⟨⟨_, rfl⟩, by simp [Shell.pending], by simp, ?_⟩)
      rintro (hmode | hmode) <;> cases hmode
  | double =>
      cases h
      refine .inr (.inl ⟨⟨_, rfl⟩, by decide, fun _ => ⟨rfl, rfl⟩, ?_⟩)
      rintro (hmode | hmode) <;> cases hmode
  | doubleEscaped =>
      cases h
      refine .inr (.inl ⟨⟨_, rfl⟩, by decide, by simp, ?_⟩)
      rintro (hmode | hmode) <;> cases hmode
  | single => cases h; exact .inr (.inr ⟨rfl, rfl, rfl⟩)

/-- Its gauge. -/
def innerGauge : inner.Gauge Shell.cost :=
  Shell.argumentGauge JsonText.gauge

/-- In single quotes the backslash stays, and JSON takes it for an escape. -/
theorem size_escapedQuote {mode next : Option JsonText.Mode}
    {parts : List (Option JsonText.Token)}
    (h : inner.scan mode [.letter '\\', .letter '"'] = some (parts, next)) :
    Lexer.size innerGauge.cost parts + innerGauge.pending next ≤ innerGauge.pending mode + 1 := by
  cases mode with
  | none => cases h
  | some mode =>
      cases mode with
      | between => cases h
      | string text =>
          have hscan : inner.scan (some (.string text)) [.letter '\\', .letter '"']
              = some ([], some (.string (text ++ ['"']))) := rfl
          cases hscan.symm.trans h
          simp [innerGauge, Shell.argumentGauge, JsonText.gauge, JsonText.pending]
      | escape text =>
          have hscan : inner.scan (some (.escape text)) [.letter '\\', .letter '"']
              = some ([some (.string (text ++ ['\\']))], some .between) := rfl
          cases hscan.symm.trans h
          simp [innerGauge, Shell.argumentGauge, JsonText.gauge, JsonText.pending, JsonText.cost]
      | unicode text digits => cases h
      | lexeme text => cases h

/-- A step of the reader is one of the shell and the reading of its tokens. -/
theorem reader_step {mode next : Shell.Mode × Option JsonText.Mode} {atom : Atom}
    {parts : List (Option JsonText.Token)} (h : reader.step mode atom = some (parts, next)) :
    ∃ tokens, words.step mode.1 atom = some (tokens, next.1) ∧
      inner.scan mode.2 tokens = some (parts, next.2) := by
  obtain ⟨first, hstep, hscan⟩ := Option.bind_eq_some_iff.1 h
  obtain ⟨found, hfound, hsame⟩ := Option.map_eq_some_iff.1 hscan
  cases hsame
  exact ⟨first.1, hstep, hfound⟩

/-- The size of the tokens of a word. -/
def gauge : reader.Gauge fun _ => 1 where
  cost := innerGauge.cost
  pending mode := Shell.pending mode.1 + innerGauge.pending mode.2
  step_le := by
    intro mode atom parts next h
    obtain ⟨tokens, hstep, hscan⟩ := reader_step h
    have hparts := innerGauge.scan_le hscan
    cases atom with
    | char c =>
        rw [words_step_char] at hstep
        have htokens := Shell.cost_step hstep
        omega
    | quote =>
        rcases words_step_quote hstep with ⟨rfl, hnext, -⟩ | ⟨⟨c, rfl⟩, hpending, -⟩ |
          ⟨rfl, hnext, -⟩
        · rw [hnext]
          rw [Lexer.size_nil] at hparts
          omega
        · have hletter : Lexer.size Shell.cost [.letter c] = 1 := rfl
          omega
        · have hescaped := size_escapedQuote hscan
          rw [hnext]
          omega
  finish_le := by
    intro mode parts h
    obtain ⟨ending, hfinish, hlex⟩ := Option.bind_eq_some_iff.1 h
    have hending := Shell.cost_finish hfinish
    have hparts := innerGauge.lexFrom_le hlex
    omega

/-! ## Where every atom was needed -/

/-- A character that loses nothing is a letter of the document. -/
theorem tight_char {mode next : Shell.Mode × Option JsonText.Mode} {c : Char}
    {parts : List (Option JsonText.Token)} (h : reader.step mode (.char c) = some (parts, next))
    (htight : Lexer.size gauge.cost parts + gauge.pending next = gauge.pending mode + 1) :
    ∃ tokens, Shell.step mode.1 c = some (tokens, next.1) ∧
      inner.scan mode.2 tokens = some (parts, next.2) ∧
      Lexer.size Shell.cost tokens + Shell.pending next.1 = Shell.pending mode.1 + 1 ∧
      Lexer.size innerGauge.cost parts + innerGauge.pending next.2
        = innerGauge.pending mode.2 + Lexer.size Shell.cost tokens := by
  obtain ⟨tokens, hstep, hscan⟩ := reader_step h
  rw [words_step_char] at hstep
  have hparts := innerGauge.scan_le hscan
  have htokens := Shell.cost_step hstep
  simp only [gauge] at htight
  exact ⟨tokens, hstep, hscan, by omega, by omega⟩

/-- Outside of quotes the closing quote is not needed. -/
theorem not_tight_of_loose {mode : Shell.Mode × Option JsonText.Mode} (h : Shell.IsLoose mode.1)
    {atoms : List Atom} (hmem : Atom.char '"' ∈ atoms) : ¬ gauge.Tight mode atoms := by
  refine Lexer.Gauge.not_tight_of_mem (fun mode => Shell.IsLoose mode.1) ?_ h hmem
  intro mode atom parts next hloose hstep htight
  cases atom with
  | char c =>
      obtain ⟨tokens, hshell, -, hsize, -⟩ := tight_char hstep htight
      obtain ⟨hother, hnext⟩ := Shell.isLoose_step hloose hshell hsize
      exact ⟨fun hsame => hother (Atom.char.inj hsame), hnext⟩
  | quote =>
      obtain ⟨tokens, hshell, -⟩ := reader_step hstep
      refine ⟨Atom.noConfusion, ?_⟩
      rcases words_step_quote hshell with ⟨-, hnext, -⟩ | ⟨-, -, -, hkeeps⟩ | ⟨-, hnext, -⟩
      · exact hnext ▸ hloose
      · exact hkeeps hloose
      · exact hnext ▸ hloose

/-- A mode of JSON that is not within an escape. -/
def IsSettled : Option JsonText.Mode → Prop
  | some (.escape _) => False
  | some (.unicode _ _) => False
  | _ => True

/-- What is not a backslash begins no escape. -/
theorem isSettled_begin {c : Char} {tokens : List JsonText.Token} {next : JsonText.Mode}
    (h : JsonText.begin c = some (tokens, next)) : IsSettled (some next) := by
  unfold JsonText.begin at h
  split_ifs at h <;> cases h <;> trivial

/-- Letters are read as JSON is. -/
theorem scan_letters {mode next : Option JsonText.Mode} {c : Char} {text : List Char}
    {parts : List (Option JsonText.Token)}
    (h : inner.scan mode ((c :: text).map Shell.Token.letter) = some (parts, next)) :
    ∃ inside tokens last, mode = some inside ∧ next = some last ∧
      JsonText.lexer.scan inside (c :: text) = some (tokens, last) ∧
      Lexer.size innerGauge.cost parts = Lexer.size JsonText.cost tokens := by
  cases mode with
  | none => cases h
  | some inside =>
      rw [inner, Shell.scan_argument] at h
      obtain ⟨⟨tokens, last⟩, hscan, hsame⟩ := Option.map_eq_some_iff.1 h
      cases hsame
      refine ⟨inside, tokens, last, rfl, rfl, hscan, ?_⟩
      rw [Lexer.size, List.map_map, Lexer.size]
      rfl

/-- One letter is read as one character of JSON. -/
theorem scan_letter {mode next : Option JsonText.Mode} {c : Char}
    {parts : List (Option JsonText.Token)}
    (h : inner.scan mode [.letter c] = some (parts, next)) :
    ∃ inside tokens last, mode = some inside ∧ next = some last ∧
      JsonText.step inside c = some (tokens, last) ∧
      Lexer.size innerGauge.cost parts = Lexer.size JsonText.cost tokens := by
  obtain ⟨inside, tokens, last, hmode, hnext, hscan, hsize⟩ :=
    @scan_letters mode next c [] parts h
  obtain ⟨first, reached, others, hstep, hnil, rfl⟩ := Lexer.scan_cons_eq_some hscan
  cases hnil
  exact ⟨inside, first, last, hmode, hnext, hstep, by rw [hsize, List.append_nil]⟩

/-- A letter that is no backslash leaves no escape open. -/
theorem isSettled_step {mode next : Option JsonText.Mode} (hmode : IsSettled mode) {c : Char}
    (hc : c ≠ '\\') {parts : List (Option JsonText.Token)}
    (h : inner.scan mode [.letter c] = some (parts, next)) : IsSettled next := by
  obtain ⟨inside, tokens, last, rfl, rfl, hstep, -⟩ := scan_letter h
  cases inside with
  | between => exact isSettled_begin hstep
  | string text =>
      simp only [JsonText.step] at hstep
      split_ifs at hstep <;> cases hstep <;> trivial
  | escape text => cases hmode
  | unicode text digits => cases hmode
  | lexeme text =>
      simp only [JsonText.step] at hstep
      split_ifs at hstep
      · cases hstep
        trivial
      · obtain ⟨found, hbegin, hsame⟩ := Option.map_eq_some_iff.1 hstep
        cases hsame
        exact isSettled_begin hbegin

/-- A control character is not needed. -/
theorem not_isControl_of_tight {mode next : Option JsonText.Mode} (hmode : IsSettled mode)
    {c : Char} {parts : List (Option JsonText.Token)}
    (h : inner.scan mode [.letter c] = some (parts, next))
    (htight : Lexer.size innerGauge.cost parts + innerGauge.pending next
      = innerGauge.pending mode + 1) : JsonText.isControl c = false := by
  obtain ⟨inside, tokens, last, rfl, rfl, hstep, hsize⟩ := scan_letter h
  rw [Bool.eq_false_iff]
  intro hcontrol
  have hless : Lexer.size JsonText.cost tokens + JsonText.pending last
      ≤ JsonText.pending inside := by
    cases inside with
    | between => exact JsonText.cost_control (.inl rfl) hcontrol hstep
    | string text =>
        have hquote : c ≠ '"' := by
          rintro rfl
          cases hcontrol
        have hbackslash : c ≠ '\\' := by
          rintro rfl
          cases hcontrol
        rw [JsonText.step, if_neg hquote, if_neg hbackslash, if_pos hcontrol] at hstep
        cases hstep
    | escape text => cases hmode
    | unicode text digits => cases hmode
    | lexeme text => exact JsonText.cost_control (.inr ⟨text, rfl⟩) hcontrol hstep
  have hinside : innerGauge.pending (some inside) = JsonText.pending inside := rfl
  have hlast : innerGauge.pending (some last) = JsonText.pending last := rfl
  omega

/-- Of a backslash and the character behind it one is not needed. -/
theorem size_backslash {mode next : Option JsonText.Mode} (hmode : IsSettled mode) {c : Char}
    {parts : List (Option JsonText.Token)}
    (h : inner.scan mode [.letter '\\', .letter c] = some (parts, next)) :
    Lexer.size innerGauge.cost parts + innerGauge.pending next ≤ innerGauge.pending mode + 1 := by
  obtain ⟨inside, tokens, last, rfl, rfl, hscan, hsize⟩ :=
    @scan_letters mode next '\\' [c] parts h
  obtain ⟨first, reached, others, hstep, hrest, rfl⟩ := Lexer.scan_cons_eq_some hscan
  obtain ⟨second, last', nothing, hescape, hnil, rfl⟩ := Lexer.scan_cons_eq_some hrest
  cases hnil
  cases inside with
  | between => cases hstep
  | string text =>
      cases hstep
      have hcost := JsonText.cost_escape hescape
      have hinside : innerGauge.pending (some (.string text)) + 1
          = JsonText.pending (.escape text) := rfl
      have hlast : innerGauge.pending (some last) = JsonText.pending last := rfl
      rw [List.nil_append, List.append_nil] at hsize
      omega
  | escape text => cases hmode
  | unicode text digits => cases hmode
  | lexeme text => cases hstep

/-- Behind a backslash that stands in double quotes something is not needed. -/
theorem not_tight_escaped {mode : Option JsonText.Mode} (hmode : IsSettled mode)
    (atoms : List Atom) : ¬ gauge.Tight (.doubleEscaped, mode) (atoms ++ [.char '"']) := by
  intro h
  have hchar : ∀ {c : Char} {rest : List Atom},
      ¬ gauge.Tight (.doubleEscaped, mode) (.char c :: rest) := by
    intro c rest htight
    obtain ⟨parts, ⟨shell, later⟩, hstep, hsize, -⟩ := htight.step
    obtain ⟨tokens, hshell, hscan, htokens, hparts⟩ := tight_char hstep hsize
    simp only [Shell.step] at hshell
    split_ifs at hshell
    · cases hshell
      cases htokens
    · cases hshell
      cases htokens
    · cases hshell
      have hless := size_backslash hmode hscan
      have htwo : Lexer.size Shell.cost [.letter '\\', .letter c] = 2 := rfl
      simp only at hparts hless
      omega
  cases atoms with
  | nil => exact hchar h
  | cons atom atoms =>
      cases atom with
      | char c => exact hchar h
      | quote =>
          obtain ⟨parts, ⟨shell, later⟩, hstep, -, hrest⟩ := h.step
          obtain ⟨tokens, hshell, -⟩ := reader_step hstep
          cases hshell
          exact not_tight_of_loose (.inr rfl) (by simp) hrest

/-- Where every atom up to the closing quote was needed, each stands for one character. -/
theorem isClean_of_tight {mode : Option JsonText.Mode} (hmode : IsSettled mode)
    {atoms : List Atom} (h : gauge.Tight (.double, mode) (atoms ++ [.char '"'])) :
    ∀ atom ∈ atoms, atom.IsClean := by
  induction atoms generalizing mode with
  | nil => simp
  | cons atom atoms ih =>
      obtain ⟨parts, ⟨shell, later⟩, hstep, htight, hrest⟩ := h.step
      rw [List.forall_mem_cons]
      cases atom with
      | quote =>
          obtain ⟨tokens, hshell, hscan⟩ := reader_step hstep
          cases hshell
          exact ⟨trivial, ih (isSettled_step hmode (by decide) hscan) hrest⟩
      | char c =>
          obtain ⟨tokens, hshell, hscan, hsize, hparts⟩ := tight_char hstep htight
          simp only [Shell.step] at hshell
          split_ifs at hshell with hnul hquote hbackslash hexpanded
          · cases hshell
            exact absurd hrest (not_tight_of_loose (.inr rfl) (by simp))
          · cases hshell
            cases hscan
            exact absurd hrest (not_tight_escaped hmode atoms)
          · cases hshell
            have hcontrol := not_isControl_of_tight hmode hscan hparts
            exact ⟨⟨⟨hquote, hbackslash, hcontrol⟩, Bool.eq_false_iff.2 hexpanded⟩,
              ih (isSettled_step hmode hbackslash hscan) hrest⟩

/-! ## Tokens in double quotes -/

/-- The atoms of tokens. -/
def atoms (tokens : List JsonText.Token) : List Atom :=
  JsonText.write .quote .char tokens

/-- The text of atoms. -/
def text (written : List Atom) : List Char :=
  written.flatMap Atom.chars

/-- A document has as many atoms as its tokens cost. -/
theorem length_atoms (tokens : List JsonText.Token) :
    (atoms tokens).length = Lexer.size JsonText.cost tokens :=
  JsonText.length_write Atom.quote Atom.char tokens

/-- What the reader makes of a word whose text is JSON. -/
theorem lexFrom_reader {written : List Atom} {word : List Char} {tokens : List JsonText.Token}
    (hword : Shell.lexer.lexFrom .double (text written) = some (Shell.wordTokens word))
    (hlex : JsonText.lex word = some tokens) :
    reader.lexFrom (.double, some .between) written = some (tokens.map some ++ [none]) := by
  rw [reader, Lexer.lexFrom_comp, words, Lexer.lexFrom_over,
    show written.flatMap Atom.chars = text written from rfl, hword, Option.bind_some, inner,
    Shell.lexFrom_argument, show JsonText.lexer.lexFrom .between word = some tokens from hlex]
  rfl

/-- What is read of a document costs one more than its tokens. -/
theorem size_read (tokens : List JsonText.Token) :
    Lexer.size gauge.cost (tokens.map some ++ [none]) = Lexer.size JsonText.cost tokens + 1 := by
  rw [Lexer.size_append, Lexer.size, List.map_map, Lexer.size]
  rfl

/-- The tokens of a word are no larger than its atoms. -/
theorem size_lt_length {written : List Atom} {word : List Char} {tokens : List JsonText.Token}
    (hword : Shell.lexer.lexFrom .double (text written) = some (Shell.wordTokens word))
    (hlex : JsonText.lex word = some tokens) :
    Lexer.size JsonText.cost tokens < written.length := by
  have hsize := gauge.lexFrom_le (lexFrom_reader hword hlex)
  have hpending : gauge.pending (.double, some .between) = 0 := rfl
  rw [size_read, Lexer.size_one, hpending] at hsize
  omega

/-- Where the word has tokens as large as those that were written, these are of clean
characters. -/
theorem consists_of_lexFrom {written tokens : List JsonText.Token}
    (hwritten : ∀ token ∈ written, token.Consists fun _ => True) {word : List Char}
    (hword : Shell.lexer.lexFrom .double (text (atoms written ++ [.char '"']))
      = some (Shell.wordTokens word))
    (hlex : JsonText.lex word = some tokens)
    (hsize : Lexer.size JsonText.cost written ≤ Lexer.size JsonText.cost tokens) :
    ∀ token ∈ written, token.Consists IsClean := by
  have htight : gauge.Tight (.double, some .between) (atoms written ++ [.char '"']) := by
    refine ⟨_, lexFrom_reader hword hlex, ?_⟩
    have hpending : gauge.pending (.double, some .between) = 0 := rfl
    rw [size_read, Lexer.size_one, hpending, List.length_append, length_atoms]
    exact Nat.le_trans (Nat.le_of_eq (Nat.zero_add _)) (Nat.succ_le_succ hsize)
  have hsettled : IsSettled (some .between) := trivial
  exact JsonText.consists_of_forall_mem_write Atom.IsClean hwritten
    (isClean_of_tight hsettled htight)

/-- Symbols are clean. -/
theorem isClean_of_isSymbol {c : Char} (h : JsonText.isSymbol c = true) : IsClean c := by
  simp only [JsonText.isSymbol, List.mem_cons, List.not_mem_nil, or_false, decide_eq_true_eq] at h
  rcases h with rfl | rfl | rfl | rfl | rfl | rfl <;> decide

/-- The characters of words are clean. -/
theorem isClean_of_isLexemeChar {c : Char} (h : JsonText.isLexemeChar c = true) : IsClean c := by
  have hcontrol : JsonText.isControl c = false := by
    rw [Bool.eq_false_iff]
    intro hc
    rw [JsonText.isLexemeChar_of_isControl hc] at h
    cases h
  refine ⟨⟨?_, ?_, hcontrol⟩, ?_⟩
  · rintro rfl
    cases h
  · rintro rfl
    cases h
  · rw [Bool.eq_false_iff]
    intro hexpanded
    simp only [Shell.isExpanded, Bool.or_eq_true, decide_eq_true_eq] at hexpanded
    rcases hexpanded with rfl | hbackquote
    · cases h
    · rw [← Char.ofNat_toNat c, hbackquote] at h
      cases h

/-- The shell takes each clean atom for the character it stands for. -/
theorem scan_clean {written : List Atom} (h : ∀ atom ∈ written, atom.IsClean) :
    words.scan .double written
      = some (written.map fun atom => .letter atom.letter, .double) := by
  induction written with
  | nil => rfl
  | cons atom written ih =>
      obtain ⟨hatom, hothers⟩ := List.forall_mem_cons.1 h
      have hstep : words.step .double atom = some ([.letter atom.letter], .double) := by
        cases atom with
        | quote => rfl
        | char c =>
            obtain ⟨⟨hquote, hbackslash, hcontrol⟩, hexpanded⟩ := hatom
            have hnul : c ≠ Char.ofNat 0 := by
              rintro rfl
              cases hcontrol
            rw [words_step_char, Shell.step, if_neg hnul, if_neg hquote, if_neg hbackslash,
              hexpanded]
            rfl
      rw [Lexer.scan_cons hstep, ih hothers]
      rfl

/-- Tokens of clean characters are the text of the word. -/
theorem lexFrom_clean {tokens : List JsonText.Token}
    (h : ∀ token ∈ tokens, token.Consists IsClean) :
    Shell.lexer.lexFrom .double (text (atoms tokens ++ [.char '"']))
      = some (Shell.wordTokens (JsonText.print tokens)) := by
  have hquote : Atom.quote.IsClean := trivial
  have hclean : ∀ atom ∈ atoms tokens, atom.IsClean :=
    JsonText.forall_mem_write Atom.IsClean hquote (fun _ => isClean_of_isSymbol)
      (fun _ => isClean_of_isLexemeChar) h
  have hscan := scan_clean hclean
  rw [words, Lexer.scan_over] at hscan
  have hprint : (atoms tokens).map Atom.letter = JsonText.print tokens :=
    JsonText.map_write Atom.letter Atom.quote Atom.char tokens
  have hletters : (atoms tokens).map (fun atom => Shell.Token.letter atom.letter)
      = (JsonText.print tokens).map Shell.Token.letter := by
    rw [← hprint, List.map_map]
    rfl
  rw [text, List.flatMap_append, Lexer.lexFrom_append hscan, hletters]
  rfl

end TallerII.Lib.QuotedJson
