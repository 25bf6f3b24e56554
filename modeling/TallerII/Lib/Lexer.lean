import Mathlib

/-!
# Lexers

A lexer reads a text symbol by symbol: from its mode it goes to the next one and gives the tokens
that end there. `scan` reads a part of a text and `lexFrom` the rest of it.

A gauge is a size of tokens that no lexing exceeds: what has been read pays for the tokens that
came out of it and for the one that has begun. `Gauge.lexFrom_le` bounds the tokens of a text by
its weight, whatever the text is. Where the two are the same, every symbol was needed
(`Tight.step`).
-/

namespace TallerII.Lib

/-- A lexer: the tokens that end with a symbol and the mode behind it, and the tokens that end
with the text. -/
structure Lexer (Symbol Token Mode : Type) where
  step : Mode → Symbol → Option (List Token × Mode)
  finish : Mode → Option (List Token)

namespace Lexer

variable {Symbol Token Mode : Type} {lexer : Lexer Symbol Token Mode} {mode next : Mode}
  {text rest : List Symbol} {tokens : List Token}

/-- Reads a part of a text. -/
def scan (lexer : Lexer Symbol Token Mode) : Mode → List Symbol → Option (List Token × Mode)
  | mode, [] => some ([], mode)
  | mode, c :: text =>
    (lexer.step mode c).bind fun first =>
      (scan lexer first.2 text).map fun others => (first.1 ++ others.1, others.2)

/-- Reads the rest of a text. -/
def lexFrom (lexer : Lexer Symbol Token Mode) (mode : Mode) (text : List Symbol) :
    Option (List Token) :=
  (lexer.scan mode text).bind fun found => (lexer.finish found.2).map (found.1 ++ ·)

/-- The empty text has no tokens. -/
@[simp] theorem scan_nil : lexer.scan mode [] = some ([], mode) := rfl

/-- A character that is accepted, and what follows. -/
theorem scan_cons {c : Symbol} {between : Mode} {first : List Token}
    (h : lexer.step mode c = some (first, between)) :
    lexer.scan mode (c :: text)
      = (lexer.scan between text).map fun found => (first ++ found.1, found.2) := by
  rw [scan, h]
  rfl

/-- A character that is not accepted ends the scan. -/
theorem scan_cons_eq_none {c : Symbol} (h : lexer.step mode c = none) :
    lexer.scan mode (c :: text) = none := by
  rw [scan, h]
  rfl

/-- A scan that succeeds accepts its first character. -/
theorem scan_cons_eq_some {c : Symbol} {last : Mode}
    (h : lexer.scan mode (c :: text) = some (tokens, last)) :
    ∃ first between others, lexer.step mode c = some (first, between) ∧
      lexer.scan between text = some (others, last) ∧ tokens = first ++ others := by
  cases hstep : lexer.step mode c with
  | none =>
      rw [scan_cons_eq_none hstep] at h
      cases h
  | some found =>
      obtain ⟨first, between⟩ := found
      rw [scan_cons hstep, Option.map_eq_some_iff] at h
      obtain ⟨⟨others, last'⟩, hrest, hsame⟩ := h
      cases hsame
      exact ⟨first, between, others, rfl, hrest, rfl⟩

/-- A text is read in two parts. -/
theorem scan_append (h : lexer.scan mode text = some (tokens, next)) :
    lexer.scan mode (text ++ rest)
      = (lexer.scan next rest).map fun found => (tokens ++ found.1, found.2) := by
  induction text generalizing mode tokens with
  | nil =>
      cases h
      simp
  | cons c text ih =>
      obtain ⟨first, between, others, hstep, hscan, rfl⟩ := scan_cons_eq_some h
      rw [List.cons_append, scan_cons hstep, ih hscan, Option.map_map]
      simp only [Function.comp_def, List.append_assoc]

/-- A text that cannot be scanned cannot be continued. -/
theorem scan_append_eq_none (h : lexer.scan mode text = none) :
    lexer.scan mode (text ++ rest) = none := by
  induction text generalizing mode with
  | nil => cases h
  | cons c text ih =>
      rw [List.cons_append]
      cases hstep : lexer.step mode c with
      | none => exact scan_cons_eq_none hstep
      | some found =>
          obtain ⟨first, between⟩ := found
          rw [scan_cons hstep, Option.map_eq_none_iff] at h ⊢
          exact ih h

/-- The tokens of a text and of what follows. -/
theorem lexFrom_append (h : lexer.scan mode text = some (tokens, next)) :
    lexer.lexFrom mode (text ++ rest) = (lexer.lexFrom next rest).map (tokens ++ ·) := by
  rw [lexFrom, lexFrom, scan_append h]
  cases hscan : lexer.scan next rest with
  | none => rfl
  | some found => simp [Function.comp_def]

/-- Nothing follows a text that cannot be scanned. -/
theorem lexFrom_append_eq_none (h : lexer.scan mode text = none) :
    lexer.lexFrom mode (text ++ rest) = none := by
  rw [lexFrom, scan_append_eq_none h]
  rfl

/-- The tokens are those of the scan and those of the end. -/
theorem lexFrom_eq_some :
    lexer.lexFrom mode text = some tokens ↔
      ∃ first last ending, lexer.scan mode text = some (first, last) ∧
        lexer.finish last = some ending ∧ tokens = first ++ ending := by
  rw [lexFrom]
  cases lexer.scan mode text with
  | none => simp
  | some found =>
      cases hfinish : lexer.finish found.2 with
      | none => simp [hfinish, Prod.ext_iff, eq_comm]
      | some ending => simp [hfinish, Prod.ext_iff, eq_comm]

/-- Symbols that a mode only collects. -/
theorem scan_collect {collect : List Symbol → Mode}
    (h : ∀ seen, ∀ c ∈ text, lexer.step (collect seen) c = some ([], collect (seen ++ [c])))
    (seen : List Symbol) :
    lexer.scan (collect seen) text = some ([], collect (seen ++ text)) := by
  induction text generalizing seen with
  | nil => rw [List.append_nil, scan_nil]
  | cons c text ih =>
      rw [scan_cons (h seen c (by simp)),
        ih (fun seen c hc => h seen c (List.mem_cons_of_mem _ hc)) (seen ++ [c])]
      simp

/-- A symbol that no mode reads is not in a text that is read. -/
theorem not_mem_of_scan {c : Symbol} (hnone : ∀ mode, lexer.step mode c = none)
    (h : lexer.scan mode text = some (tokens, next)) : c ∉ text := by
  induction text generalizing mode tokens with
  | nil => simp
  | cons d text ih =>
      obtain ⟨first, between, others, hstep, hscan, -⟩ := scan_cons_eq_some h
      rw [List.mem_cons, not_or]
      refine ⟨?_, ih hscan⟩
      rintro rfl
      rw [hnone mode] at hstep
      cases hstep

/-- A text with tokens has no character that is never accepted. -/
theorem not_mem_of_lexFrom {c : Symbol} (hnone : ∀ mode, lexer.step mode c = none)
    (h : lexer.lexFrom mode text = some tokens) : c ∉ text := by
  obtain ⟨first, last, ending, hscan, -⟩ := lexFrom_eq_some.1 h
  exact not_mem_of_scan hnone hscan

/-! ## Lexers after one another -/

/-- Symbols that stand for several symbols of the lexer. -/
def through {Atom : Type} (lexer : Lexer Symbol Token Mode) (expand : Atom → List Symbol) :
    Lexer Atom Token Mode where
  step mode atom := lexer.scan mode (expand atom)
  finish := lexer.finish

/-- Atoms are scanned as the symbols that they expand to. -/
theorem scan_over {Atom : Type} (expand : Atom → List Symbol) (mode : Mode) (atoms : List Atom) :
    (lexer.through expand).scan mode atoms = lexer.scan mode (atoms.flatMap expand) := by
  induction atoms generalizing mode with
  | nil => rfl
  | cons atom atoms ih =>
      rw [List.flatMap_cons]
      cases hatom : lexer.scan mode (expand atom) with
      | none => rw [scan_append_eq_none hatom]; exact scan_cons_eq_none hatom
      | some found => rw [scan_append hatom, scan_cons hatom, ih]

/-- The tokens of atoms are those of their symbols. -/
theorem lexFrom_over {Atom : Type} (expand : Atom → List Symbol) (mode : Mode)
    (atoms : List Atom) :
    (lexer.through expand).lexFrom mode atoms = lexer.lexFrom mode (atoms.flatMap expand) := by
  rw [lexFrom, scan_over]
  rfl

/-- A lexer that reads the tokens of another. -/
def comp {Part Later : Type} (lexer : Lexer Symbol Token Mode) (second : Lexer Token Part Later) :
    Lexer Symbol Part (Mode × Later) where
  step mode c := (lexer.step mode.1 c).bind fun first =>
    (second.scan mode.2 first.1).map fun parts => (parts.1, (first.2, parts.2))
  finish mode := (lexer.finish mode.1).bind (second.lexFrom mode.2)

/-- A lexer behind another one scans the tokens of the first. -/
theorem scan_comp {Part Later : Type} (second : Lexer Token Part Later) (mode : Mode)
    (later : Later) (text : List Symbol) :
    (lexer.comp second).scan (mode, later) text
      = (lexer.scan mode text).bind fun first =>
          (second.scan later first.1).map fun parts => (parts.1, (first.2, parts.2)) := by
  induction text generalizing mode later with
  | nil => rfl
  | cons c text ih =>
      cases hstep : lexer.step mode c with
      | none =>
          rw [scan_cons_eq_none hstep]
          exact scan_cons_eq_none (by simp [comp, hstep])
      | some found =>
          obtain ⟨first, between⟩ := found
          rw [scan_cons hstep]
          cases hparts : second.scan later first with
          | none =>
              rw [scan_cons_eq_none (show (lexer.comp second).step (mode, later) c = none by
                simp [comp, hstep, hparts])]
              cases lexer.scan between text with
              | none => rfl
              | some rest => simp [scan_append_eq_none hparts]
          | some parts =>
              rw [scan_cons (show (lexer.comp second).step (mode, later) c
                = some (parts.1, (between, parts.2)) by simp [comp, hstep, hparts]), ih]
              cases lexer.scan between text with
              | none => rfl
              | some rest => simp [scan_append hparts, Function.comp_def]

/-- The tokens of a lexer behind another one. -/
theorem lexFrom_comp {Part Later : Type} (second : Lexer Token Part Later) (mode : Mode)
    (later : Later) (text : List Symbol) :
    (lexer.comp second).lexFrom (mode, later) text
      = (lexer.lexFrom mode text).bind (second.lexFrom later) := by
  rw [lexFrom, scan_comp, lexFrom]
  cases lexer.scan mode text with
  | none => rfl
  | some found =>
      obtain ⟨first, last⟩ := found
      simp only [Option.bind_some, comp, Option.bind_map, Function.comp_def]
      cases hparts : second.scan later first with
      | none => simp [lexFrom_append_eq_none hparts]
      | some parts =>
          cases lexer.finish last with
          | none => simp
          | some ending => simp [lexFrom_append hparts]

/-! ## Gauges -/

/-- The weight of a text. -/
def size (weight : Symbol → Nat) (text : List Symbol) : Nat :=
  (text.map weight).sum

section Size

variable (weight : Symbol → Nat)

/-- Nothing weighs nothing. -/
@[simp] theorem size_nil : size weight [] = 0 := rfl

/-- A symbol in front adds its weight. -/
@[simp] theorem size_cons (c : Symbol) (text : List Symbol) :
    size weight (c :: text) = weight c + size weight text := by
  simp [size]

/-- The weights of two texts add up. -/
@[simp] theorem size_append (text rest : List Symbol) :
    size weight (text ++ rest) = size weight text + size weight rest := by
  simp [size]

/-- With one for each symbol, the weight is the length. -/
theorem size_one (text : List Symbol) : size (fun _ => 1) text = text.length := by
  simp [size]

end Size

/-- A size of tokens that what was read pays for. -/
structure Gauge (lexer : Lexer Symbol Token Mode) (weight : Symbol → Nat) where
  cost : Token → Nat
  /-- What has been read for the tokens to come. -/
  pending : Mode → Nat
  step_le : ∀ {mode c tokens next}, lexer.step mode c = some (tokens, next) →
    size cost tokens + pending next ≤ pending mode + weight c
  finish_le : ∀ {mode tokens}, lexer.finish mode = some tokens →
    size cost tokens ≤ pending mode

namespace Gauge

variable {weight : Symbol → Nat} (gauge : Gauge lexer weight)

/-- The tokens of a scan cost no more than its symbols weigh. -/
theorem scan_le (h : lexer.scan mode text = some (tokens, next)) :
    size gauge.cost tokens + gauge.pending next ≤ gauge.pending mode + size weight text := by
  induction text generalizing mode tokens with
  | nil =>
      cases h
      simp
  | cons c text ih =>
      obtain ⟨first, between, others, hstep, hscan, rfl⟩ := scan_cons_eq_some h
      have hfirst : size gauge.cost first + gauge.pending between
          ≤ gauge.pending mode + weight c :=
        gauge.step_le hstep
      have hothers := ih hscan
      rw [size_append, size_cons]
      omega

/-- The tokens of a text are not larger than the text. -/
theorem lexFrom_le (h : lexer.lexFrom mode text = some tokens) :
    size gauge.cost tokens ≤ gauge.pending mode + size weight text := by
  obtain ⟨first, last, ending, hscan, hfinish, rfl⟩ := lexFrom_eq_some.1 h
  have hfirst := gauge.scan_le hscan
  have hending : size gauge.cost ending ≤ gauge.pending last := gauge.finish_le hfinish
  rw [size_append]
  omega

/-- A lexer that reads the tokens of another is gauged with it. -/
def comp {Part Later : Type} {second : Lexer Token Part Later}
    (other : Gauge second gauge.cost) : Gauge (lexer.comp second) weight where
  cost := other.cost
  pending mode := gauge.pending mode.1 + other.pending mode.2
  step_le := by
    intro mode c parts next h
    simp only [Lexer.comp, Option.bind_eq_some_iff, Option.map_eq_some_iff] at h
    obtain ⟨first, hstep, found, hscan, hsame⟩ := h
    cases hsame
    have hfirst : size gauge.cost first.1 + gauge.pending first.2
        ≤ gauge.pending mode.1 + weight c :=
      gauge.step_le hstep
    have hparts := other.scan_le hscan
    show size other.cost found.1 + (gauge.pending first.2 + other.pending found.2) ≤ _
    omega
  finish_le := by
    intro mode parts h
    simp only [Lexer.comp, Option.bind_eq_some_iff] at h
    obtain ⟨ending, hfinish, hlex⟩ := h
    have hending : size gauge.cost ending ≤ gauge.pending mode.1 := gauge.finish_le hfinish
    have hparts := other.lexFrom_le hlex
    omega

/-- All that was read was needed for the tokens. -/
def Tight (mode : Mode) (text : List Symbol) : Prop :=
  ∃ tokens, lexer.lexFrom mode text = some tokens ∧
    gauge.pending mode + size weight text ≤ size gauge.cost tokens

/-- Where all was needed, every symbol was. -/
theorem Tight.step {gauge : Gauge lexer weight} {c : Symbol} (h : gauge.Tight mode (c :: text)) :
    ∃ first between, lexer.step mode c = some (first, between) ∧
      size gauge.cost first + gauge.pending between = gauge.pending mode + weight c ∧
      gauge.Tight between text := by
  obtain ⟨tokens, hlex, hsize⟩ := h
  obtain ⟨found, last, ending, hscan, hfinish, rfl⟩ := lexFrom_eq_some.1 hlex
  obtain ⟨first, between, others, hstep, hothers, rfl⟩ := scan_cons_eq_some hscan
  have hrest : lexer.lexFrom between text = some (others ++ ending) :=
    lexFrom_eq_some.2 ⟨others, last, ending, hothers, hfinish, rfl⟩
  have hfirst : size gauge.cost first + gauge.pending between ≤ gauge.pending mode + weight c :=
    gauge.step_le hstep
  have hle := gauge.lexFrom_le hrest
  simp only [size_append, size_cons] at hsize hfirst hle ⊢
  exact ⟨first, between, hstep, by omega, others ++ ending, hrest,
    by simp only [size_append]; omega⟩

/-- A symbol that is not needed in some modes, which only an unneeded symbol leaves. -/
theorem not_tight_of_mem {gauge : Gauge lexer weight} (loose : Mode → Prop) {special : Symbol}
    (hstep : ∀ {mode c tokens next}, loose mode → lexer.step mode c = some (tokens, next) →
      size gauge.cost tokens + gauge.pending next = gauge.pending mode + weight c →
        c ≠ special ∧ loose next)
    (hloose : loose mode) (hmem : special ∈ text) : ¬ gauge.Tight mode text := by
  induction text generalizing mode with
  | nil => simp at hmem
  | cons c text ih =>
      intro htight
      obtain ⟨first, between, hfirst, hsize, hrest⟩ := htight.step
      obtain ⟨hother, hnext⟩ := hstep hloose hfirst hsize
      exact ih hnext ((List.mem_cons.1 hmem).resolve_left (Ne.symm hother)) hrest

end Gauge

end Lexer

end TallerII.Lib
