import TallerII.Basic
import TallerII.Lib.Sql

/-!
# The SQL of categories

The shared server writes the strings it receives into the text of its commands: `create_category`
and `delete_category` put them between quotes as they are. `categorySql_faithful` says when the
commands are the two that are meant, and do to the tables what is meant: when no string has a
quote in it. A statement is compared by its tokens, as PostgreSQL reads them.
-/

namespace TallerII.Categories

open Lib

/-! ## The commands -/

/-- `sprintf` of `sprintf-js` for a format whose directives are all `%s`. -/
def sprintf : Text → List Text → Text
  | '%' :: 's' :: format, argument :: arguments => argument ++ sprintf format arguments
  | c :: format, arguments => c :: sprintf format arguments
  | [], _ => []

/-- `cration_template`. -/
def crationTemplate : Text :=
  "INSERT INTO %s (%s) values(%s);".toList

/-- The command of `create_category`. -/
def createCategory (name description : Text) : Text :=
  let valuesName := sprintf "%s,%s".toList ["name".toList, "description".toList]
  let values := sprintf "'%s','%s'".toList [name, description]
  sprintf crationTemplate ["categories".toList, valuesName, values]

/-- The command of `delete_category`. -/
def deleteCategory (toDelete : Text) : Text :=
  sprintf "DELETE FROM categories where name='%s'".toList [toDelete]

/-- The first `sprintf` puts table, columns and values into the template. -/
theorem sprintf_crationTemplate (values : Text) :
    sprintf crationTemplate ["categories".toList,
        sprintf "%s,%s".toList ["name".toList, "description".toList], values]
      = "INSERT INTO categories (name,description) values(".toList
        ++ (values ++ ");".toList) := rfl

/-- The text of the insertion, with both strings as they are. -/
theorem createCategory_eq (name description : Text) :
    createCategory name description
      = "INSERT INTO categories (name,description) values('".toList ++
        (name ++ ("','".toList ++ (description ++ "');".toList))) := by
  have hopened : "INSERT INTO categories (name,description) values(".toList ++ ['\'']
      = "INSERT INTO categories (name,description) values('".toList := rfl
  have hclosed : (name ++ ("','".toList ++ (description ++ ['\'']))) ++ ");".toList
      = name ++ ("','".toList ++ (description ++ "');".toList)) := by
    rw [List.append_assoc, List.append_assoc, List.append_assoc]
    rfl
  rw [← hopened, List.append_assoc, ← hclosed]
  exact sprintf_crationTemplate _

/-- The text of the deletion, with the string as it is. -/
theorem deleteCategory_eq (toDelete : Text) :
    deleteCategory toDelete
      = "DELETE FROM categories where name='".toList ++ (toDelete ++ ['\'']) := rfl

/-! ## The statements -/

/-- A row of a table that belongs to a category. -/
structure Item where
  name : Text
  description : Text
  category : Text
deriving DecidableEq

/-- The tables of the catalogue. -/
structure Catalogue where
  /-- The descriptions of the categories, by their names. -/
  categories : List (Text × Text)
  jobPositions : List Item
  skills : List Item

/-- The two statements about categories. -/
inductive Statement where
  | insert (name description : Text)
  | delete (name : Text)
deriving DecidableEq

namespace Statement

/-- The tokens of a statement. -/
def tokens : Statement → List Sql.Token
  | insert name description => [
    .word "INSERT".toList, .word "INTO".toList, .word "categories".toList, .symbol '(',
    .word "name".toList, .symbol ',', .word "description".toList, .symbol ')',
    .word "values".toList, .symbol '(', .literal name, .symbol ',', .literal description,
    .symbol ')', .symbol ';']
  | delete name => [
    .word "DELETE".toList, .word "FROM".toList, .word "categories".toList, .word "where".toList,
    .word "name".toList, .symbol '=', .literal name]

/-- What a statement does: a name is inserted once, and the items of a category go with it. -/
def run (catalogue : Catalogue) : Statement → Option Catalogue
  | insert name description =>
    if ∃ category ∈ catalogue.categories, category.1 = name then none
    else some { catalogue with categories := catalogue.categories ++ [(name, description)] }
  | delete name => some {
    categories := catalogue.categories.filter fun category => category.1 ≠ name
    jobPositions := catalogue.jobPositions.filter fun item => item.category ≠ name
    skills := catalogue.skills.filter fun item => item.category ≠ name }

/-- Only the category with the name is removed, with its items. -/
theorem mem_run_delete {catalogue next : Catalogue} {name : Text}
    (h : (delete name).run catalogue = some next) :
    (∀ category, category ∈ next.categories ↔ category ∈ catalogue.categories ∧
        category.1 ≠ name) ∧
      (∀ item, item ∈ next.jobPositions ↔ item ∈ catalogue.jobPositions ∧ item.category ≠ name) ∧
      ∀ item, item ∈ next.skills ↔ item ∈ catalogue.skills ∧ item.category ≠ name := by
  cases h
  simp

end Statement

/-- A command is one statement. -/
def Issues (command : Text) (statement : Statement) : Prop :=
  Sql.lex command = some statement.tokens

/-- Whether a command is a statement can be computed. -/
instance (command : Text) (statement : Statement) : Decidable (Issues command statement) :=
  inferInstanceAs (Decidable (_ = _))

/-- The tables before and after a command that is one of the statements. -/
def Runs (command : Text) (catalogue next : Catalogue) : Prop :=
  ∃ statement : Statement, Issues command statement ∧ statement.run catalogue = some next

/-- A command inserts the category, unless there is one of the name, and changes nothing else. -/
def Inserts (command name description : Text) : Prop :=
  ∀ catalogue next, Runs command catalogue next ↔
    (∀ category ∈ catalogue.categories, category.1 ≠ name) ∧
      next = { catalogue with categories := catalogue.categories ++ [(name, description)] }

/-- A command removes the category of the name with its items, and nothing else. -/
def Removes (command name : Text) : Prop :=
  ∀ catalogue, ∃ next, Runs command catalogue next ∧
    (∀ category, category ∈ next.categories ↔ category ∈ catalogue.categories ∧
        category.1 ≠ name) ∧
      (∀ item, item ∈ next.jobPositions ↔ item ∈ catalogue.jobPositions ∧ item.category ≠ name) ∧
      ∀ item, item ∈ next.skills ↔ item ∈ catalogue.skills ∧ item.category ≠ name

/-- A statement has its own tokens. -/
theorem Statement.tokens_injective {statement other : Statement}
    (h : statement.tokens = other.tokens) : statement = other := by
  cases statement <;> cases other <;> simp_all [Statement.tokens]

/-- A command that does to an empty table what the insertion does is the insertion. -/
theorem inserts_iff (command name description : Text) :
    Inserts command name description ↔ Issues command (.insert name description) := by
  constructor
  · intro hinserts
    obtain ⟨statement, hissues, hrun⟩ :=
      (hinserts ⟨[], [], []⟩ _).mpr ⟨List.forall_mem_nil _, rfl⟩
    cases statement with
    | insert other text =>
        simp only [Statement.run, List.not_mem_nil, false_and, exists_false, if_false,
          List.nil_append, Option.some.injEq, Catalogue.mk.injEq, List.cons.injEq, Prod.mk.injEq,
          and_true] at hrun
        rwa [hrun.1, hrun.2] at hissues
    | delete other => simp [Statement.run] at hrun
  · intro hissues catalogue next
    constructor
    · rintro ⟨statement, hother, hrun⟩
      obtain rfl := Statement.tokens_injective (Option.some.inj (hother.symm.trans hissues))
      rw [Statement.run] at hrun
      split at hrun
      · cases hrun
      · rename_i hnew
        cases hrun
        exact ⟨fun category hmem hname => hnew ⟨category, hmem, hname⟩, rfl⟩
    · rintro ⟨hnew, rfl⟩
      refine ⟨_, hissues, if_neg ?_⟩
      rintro ⟨category, hmem, hname⟩
      exact hnew category hmem hname

/-- A command that removes a category as the deletion does is the deletion. -/
theorem removes_iff (command name : Text) :
    Removes command name ↔ Issues command (.delete name) := by
  constructor
  · intro hremoves
    obtain ⟨next, ⟨statement, hissues, hrun⟩, hcategories, -⟩ := hremoves ⟨[(name, [])], [], []⟩
    have hgone : (name, []) ∉ next.categories := fun hmem => ((hcategories _).mp hmem).2 rfl
    cases statement with
    | insert other text =>
        rw [Statement.run] at hrun
        split at hrun
        · cases hrun
        · cases hrun
          exact absurd List.mem_cons_self hgone
    | delete other =>
        cases hrun
        by_cases hname : name = other
        · rwa [hname]
        · have hkept : (name, [])
              ∈ [(name, ([] : Text))].filter (fun category => category.1 ≠ other) :=
            List.mem_filter.mpr ⟨List.mem_cons_self, decide_eq_true hname⟩
          exact absurd hkept hgone
  · intro hissues catalogue
    exact ⟨_, ⟨_, hissues, rfl⟩, Statement.mem_run_delete rfl⟩

/-! ## When they are issued -/

/-- The command up to the first quote. -/
theorem lex_createCategory (name description : Text) :
    Sql.lex (createCategory name description)
      = (Sql.lexer.lexFrom (.literal []) (name ++ ("','".toList ++ (description ++
          "');".toList)))).map ((Statement.insert [] []).tokens.take 10 ++ ·) := by
  rw [createCategory_eq]
  exact Lexer.lexFrom_append (by decide +kernel)

/-- The tokens of a deletion are those in front of the string and those that the string makes. -/
theorem lex_deleteCategory (toDelete : Text) :
    Sql.lex (deleteCategory toDelete)
      = (Sql.lexer.lexFrom (.literal []) (toDelete ++ ['\''])).map
          ((Statement.delete []).tokens.take 6 ++ ·) := by
  rw [deleteCategory_eq]
  exact Lexer.lexFrom_append (by decide +kernel)

/-- The two literals of the command pay for every character of the strings once. A quote in a
string has to be paid for twice. -/
theorem issues_insert_iff (name description : Text) :
    Issues (createCategory name description) (.insert name description) ↔
      Sql.IsPlain name ∧ Sql.IsPlain description := by
  rw [Issues, lex_createCategory]
  constructor
  · intro h
    obtain ⟨tokens, hlex, hsame⟩ := Option.map_eq_some_iff.1 h
    obtain rfl : tokens = [.literal name, .symbol ',', .literal description, .symbol ')',
        .symbol ';'] := List.append_cancel_left hsame
    have hnul := Lexer.not_mem_of_lexFrom Sql.step_nul hlex
    have hquotes : Sql.quoteCost name = 0 ∧ Sql.quoteCost description = 0 := by
      have hsize := Sql.gauge.lexFrom_le hlex
      simp only [Sql.gauge, Lexer.size_cons, Lexer.size_nil, Lexer.size_one, Sql.cost,
        Sql.pending, List.length_append] at hsize
      have hfirst : Sql.quoteCost [] = 0 := rfl
      have hcomma : ("','".toList).length = 3 := rfl
      have hclosing : ("');".toList).length = 3 := rfl
      rw [hfirst, hcomma, hclosing, List.length_nil] at hsize
      omega
    simp only [List.mem_append, not_or] at hnul
    exact ⟨⟨Sql.quoteCost_eq_zero.1 hquotes.1, hnul.1⟩,
      ⟨Sql.quoteCost_eq_zero.1 hquotes.2, hnul.2.2.1⟩⟩
  · rintro ⟨hname, hdescription⟩
    have hcomma : Sql.lexer.scan (.literal name) "','".toList
        = some ([.literal name, .symbol ','], .literal []) := rfl
    rw [Lexer.lexFrom_append (Sql.scan_plain hname []), List.nil_append,
      Lexer.lexFrom_append hcomma, Lexer.lexFrom_append (Sql.scan_plain hdescription [])]
    rfl

/-- The deletion is the one that is meant exactly when the string ends no literal. -/
theorem issues_delete_iff (toDelete : Text) :
    Issues (deleteCategory toDelete) (.delete toDelete) ↔ Sql.IsPlain toDelete := by
  rw [Issues, lex_deleteCategory]
  constructor
  · intro h
    obtain ⟨tokens, hlex, hsame⟩ := Option.map_eq_some_iff.1 h
    obtain rfl : tokens = [.literal toDelete] := List.append_cancel_left hsame
    have hnul := Lexer.not_mem_of_lexFrom Sql.step_nul hlex
    have hquotes : Sql.quoteCost toDelete = 0 := by
      have hsize := Sql.gauge.lexFrom_le hlex
      simp only [Sql.gauge, Lexer.size_cons, Lexer.size_nil, Lexer.size_one, Sql.cost,
        Sql.pending, List.length_append, List.length_cons, List.length_nil] at hsize
      have hfirst : Sql.quoteCost [] = 0 := rfl
      omega
    rw [List.mem_append, not_or] at hnul
    exact ⟨Sql.quoteCost_eq_zero.1 hquotes, hnul.1⟩
  · intro h
    rw [Lexer.lexFrom_append (Sql.scan_plain h [])]
    rfl

/-- The commands are the statements that are meant when no string has a quote or a NUL, and then
they do what is meant. -/
theorem categorySql_faithful (name description toDelete : Text) :
    ((Issues (createCategory name description) (.insert name description) ∧
        Issues (deleteCategory toDelete) (.delete toDelete)) ↔
      Sql.IsPlain name ∧ Sql.IsPlain description ∧ Sql.IsPlain toDelete) ∧
    ((Inserts (createCategory name description) name description ∧
        Removes (deleteCategory toDelete) toDelete) ↔
      Sql.IsPlain name ∧ Sql.IsPlain description ∧ Sql.IsPlain toDelete) := by
  rw [inserts_iff, removes_iff, issues_insert_iff, issues_delete_iff, and_assoc]
  exact ⟨Iff.rfl, Iff.rfl⟩

/-- The text that erases the catalogue. -/
def erasesAll : Text :=
  "x' or ''='".toList

/-- The condition of the deletion holds of every category. -/
theorem deleteCategory_erasesAll :
    ¬ Issues (deleteCategory erasesAll) (.delete erasesAll) ∧
      Sql.lex (deleteCategory erasesAll) = some [
        .word "DELETE".toList, .word "FROM".toList, .word "categories".toList,
        .word "where".toList, .word "name".toList, .symbol '=', .literal ['x'],
        .word "or".toList, .literal [], .symbol '=', .literal []] := by
  constructor <;> decide +kernel

end TallerII.Categories
