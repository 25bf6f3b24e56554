import TallerII.Access
import TallerII.Lib.Shell

/-!
# The commands that the server starts

The server asks Facebook and Firebase with `curl`, whose command line it puts together from texts
that come from its users. `facebookCommand_iff` says for which tokens the command that signs in
with Facebook is the one that is meant.
-/

namespace TallerII

open Lib LoginWithFacebookHandler

variable (env : Environment)

/-! ## Quoted words -/

/-- What is in front of a text without a NUL is part of the C string. -/
theorem cString_append {text : Text} (h : Char.ofNat 0 ∉ text) (rest : Text) :
    cString (text ++ rest) = text ++ cString rest := by
  have hstays : ∀ c ∈ text, (decide (c ≠ Char.ofNat 0)) = true := by
    intro c hc
    exact decide_eq_true fun hsame => h (hsame ▸ hc)
  rw [cString, List.takeWhile_append_of_pos hstays]
  rfl

/-- A text without a NUL is the C string. -/
theorem cString_of_not_mem {text : Text} (h : Char.ofNat 0 ∉ text) : cString text = text := by
  have happend := cString_append h []
  rwa [List.append_nil, show cString [] = [] from rfl, List.append_nil] at happend

/-- A NUL ends the C string, whatever is behind it. -/
theorem length_cString_append {text : Text} (h : Char.ofNat 0 ∈ text) (rest : Text) :
    (cString (text ++ rest)).length ≤ text.length := by
  induction text with
  | nil => simp at h
  | cons c text ih =>
      rw [cString, List.cons_append, List.takeWhile_cons]
      split
      · rename_i hother
        have hmem : Char.ofNat 0 ∈ text :=
          (List.mem_cons.1 h).resolve_left (Ne.symm (of_decide_eq_true hother))
        exact Nat.succ_le_succ (ih hmem)
      · exact Nat.zero_le _

/-- A command line behind the quotes that open its last word. -/
theorem isCommand_open_iff {opening : Text} {words : List Text}
    (hopening : Shell.lexer.scan .between opening
      = some (words.flatMap Shell.wordTokens, .double)) (rest word : Text) :
    Shell.IsCommand (cString (opening ++ rest)) (words ++ [word]) ↔
      Shell.lexer.lexFrom .double (cString rest) = some (Shell.wordTokens word) := by
  have hwords : (words ++ [word]).flatMap Shell.wordTokens
      = words.flatMap Shell.wordTokens ++ Shell.wordTokens word := by
    rw [List.flatMap_append, List.flatMap_singleton]
  rw [Shell.IsCommand, Shell.lex,
    cString_append (Lexer.not_mem_of_scan Shell.step_nul hopening),
    Lexer.lexFrom_append hopening, hwords, Option.map_eq_some_iff]
  constructor
  · rintro ⟨tokens, hlex, hsame⟩
    rwa [List.append_cancel_left hsame] at hlex
  · intro hlex
    exact ⟨_, hlex, rfl⟩

/-- A command line that ends with a word in double quotes. -/
theorem isCommand_quoted_iff {opening : Text} {words : List Text}
    (hopening : Shell.lexer.scan .between opening
      = some (words.flatMap Shell.wordTokens, .double)) (word : Text) :
    Shell.IsCommand (cString (opening ++ (word ++ ['"']))) (words ++ [word]) ↔
      Shell.isInert word = true := by
  rw [isCommand_open_iff hopening]
  by_cases hnul : Char.ofNat 0 ∈ word
  · constructor
    · intro hlex
      have hlong := Shell.length_le_of_lexFrom_double hlex
      have hshort := length_cString_append hnul ['"']
      omega
    · intro hinert
      exact absurd hnul (Shell.not_mem_of_isInert hinert)
  · have hend : Char.ofNat 0 ∉ word ++ ['"'] := by simp [hnul]
    rw [cString_of_not_mem hend, Shell.lexFrom_double_iff]

/-! ## Signing in with Facebook -/

/-- The words before the address. -/
def getWords : List Text :=
  ["curl".toList, "-i".toList, "-X".toList, "GET".toList]

/-- What stands between the configured address and the token. -/
def facebookQuery : Text :=
  "?fields=first_name,last_name,birthday,email&access_token=".toList

/-- The command that signs in with Facebook recovers the token when the shell takes every
character of it for itself. -/
theorem facebookCommand_iff {url : Text} (hurl : env.config "facebookUrl" = some url)
    (hinert : Shell.isInert url = true) (token : Text) :
    ∃ request, buildStringRequest env token = .ok request ∧
      (Shell.IsCommand (cString request) (getWords ++ [url ++ facebookQuery ++ token]) ↔
        Shell.isInert token = true) := by
  have hopening : Shell.lexer.scan .between "curl -i -X GET \"".toList
      = some (getWords.flatMap Shell.wordTokens, .double) := by decide +kernel
  refine ⟨"curl -i -X GET \"".toList ++ (url ++ facebookQuery ++ token ++ ['"']), ?_, ?_⟩
  · have hquery : facebookQuery = ['?'] ++ "fields=first_name,last_name,birthday,email".toList ++
        ['&'] ++ "access_token=".toList := rfl
    have hcommand : "curl -i -X GET \"".toList = "curl -i -X GET".toList ++ [' ', '"'] := rfl
    rw [buildStringRequest, Handler.configured, hurl, hquery, hcommand]
    simp only [ok_bind, List.append_assoc]
    rfl
  · rw [isCommand_quoted_iff hopening, List.append_assoc, Shell.isInert_append hinert,
      Shell.isInert_append (by decide +kernel)]

/-- The address of the profile of a person. -/
def profileUrl : Text :=
  "https://graph.facebook.com/me".toList

/-- A server with the address. -/
def signingIn : Environment :=
  { Environment.quiet with config := fun _ => some profileUrl }

/-- For a token of letters the command is `curl` with the profile that is asked for. -/
theorem facebookCommand_letters :
    ∃ request, buildStringRequest signingIn "EAAB".toList = .ok request ∧
      (Shell.IsCommand (cString request)
          (getWords ++ [profileUrl ++ facebookQuery ++ "EAAB".toList]) ↔
        Shell.isInert "EAAB".toList = true) :=
  facebookCommand_iff signingIn rfl (by decide +kernel) "EAAB".toList

/-- A token that ends the quotes and begins another command. -/
def injectedToken : Text :=
  "\";reboot #".toList

/-- The shell runs the other command too. -/
theorem facebookCommand_injected :
    ∃ request, buildStringRequest signingIn injectedToken = .ok request ∧
      ¬ Shell.IsCommand (cString request)
        (getWords ++ [profileUrl ++ facebookQuery ++ injectedToken]) ∧
      Shell.lex (cString request)
        = some ((getWords ++ [profileUrl ++ facebookQuery]).flatMap Shell.wordTokens ++
            .operator ';' :: Shell.wordTokens "reboot".toList) := by
  refine ⟨_, rfl, ?_⟩
  decide +kernel

end TallerII
