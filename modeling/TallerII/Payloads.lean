import TallerII.Commands
import TallerII.Lib.QuotedJson

/-!
# What a notification carries

A notification is a JSON document that the server writes into the command line of `curl`, with a
backslash before each of its own quotes and the texts of the users as they are.
`notifications_faithful` says for which texts the command has the document that is meant.
-/

namespace TallerII.NotificationSender

open Lib JsonText

variable (env : Environment)

/-! ## Documents in double quotes -/

/-- A text of characters that neither the shell nor JSON takes for something else. -/
def IsClean (text : Text) : Prop :=
  ∀ c ∈ text, QuotedJson.IsClean c

/-- Whether a text is clean can be computed. -/
instance (text : Text) : Decidable (IsClean text) :=
  List.decidableBAll _ text

/-- The command is the words and one more, which is a JSON document with a property. -/
def Delivers (request : Text) (words : List Text) (isMeant : Value → Prop) : Prop :=
  ∃ argument document, Shell.IsCommand (cString request) (words ++ [argument]) ∧
    lex argument = some document.tokens ∧ isMeant document

/-- The atoms before the first NUL. -/
theorem cString_text (written : List QuotedJson.Atom) :
    ∃ kept, cString (QuotedJson.text written) = QuotedJson.text kept ∧
      kept.length ≤ written.length ∧
      (kept.length = written.length → kept = written) := by
  induction written with
  | nil => exact ⟨[], rfl, Nat.le_refl _, fun _ => rfl⟩
  | cons atom written ih =>
      obtain ⟨kept, hkept, hle, hsame⟩ := ih
      have htext : ∀ others, QuotedJson.text (atom :: others)
          = atom.chars ++ QuotedJson.text others := fun others => List.flatMap_cons
      by_cases hnul : Char.ofNat 0 ∈ atom.chars
      · refine ⟨[], ?_, Nat.zero_le _, fun hlength => by cases hlength⟩
        cases atom with
        | char c =>
            obtain rfl : Char.ofNat 0 = c := List.mem_singleton.1 hnul
            rfl
        | quote => exact absurd hnul (by decide)
      · refine ⟨atom :: kept, ?_, Nat.succ_le_succ hle, fun hlength => ?_⟩
        · rw [htext, htext, cString_append hnul, hkept]
        · rw [hsame (Nat.succ.inj hlength)]

/-- A document between double quotes is delivered when its strings are clean. A document that is
meant as well must not be smaller. -/
theorem delivers_iff {opening : Text} {words : List Text}
    (hopening : Shell.lexer.scan .between opening
      = some (words.flatMap Shell.wordTokens, .double)) {document : Value}
    (hapart : IsApart document.tokens)
    (hwritten : ∀ token ∈ document.tokens, token.Consists fun _ => True)
    {isMeant : Value → Prop} (hmeant : isMeant document)
    (hsize : ∀ other, isMeant other → document.size ≤ other.size) :
    Delivers (opening ++ QuotedJson.text (QuotedJson.atoms document.tokens ++ [.char '"']))
        words isMeant ↔
      ∀ token ∈ document.tokens, token.Consists QuotedJson.IsClean := by
  constructor
  · rintro ⟨argument, other, hcommand, hlex, hother⟩
    rw [isCommand_open_iff hopening] at hcommand
    obtain ⟨kept, hkept, hle, hsame⟩ :=
      cString_text (QuotedJson.atoms document.tokens ++ [.char '"'])
    rw [hkept] at hcommand
    -- the text of a document that is meant takes at least the room of the one that was written
    have hlong := QuotedJson.size_lt_length hcommand hlex
    have hlarge : Lexer.size cost document.tokens ≤ Lexer.size cost other.tokens :=
      hsize other hother
    have hlength : (QuotedJson.atoms document.tokens ++ [QuotedJson.Atom.char '"']).length
        = Lexer.size cost document.tokens + 1 := by
      rw [List.length_append, QuotedJson.length_atoms]
      rfl
    rw [hsame (by omega)] at hcommand
    exact QuotedJson.consists_of_lexFrom hwritten hcommand hlex hlarge
  · intro hclean
    have hword := QuotedJson.lexFrom_clean hclean
    have hnul := Lexer.not_mem_of_lexFrom Shell.step_nul hword
    refine ⟨print document.tokens, document, ?_, ?_, hmeant⟩
    · rw [isCommand_open_iff hopening, cString_of_not_mem hnul, hword]
    · refine lex_print hapart fun token htoken => ?_
      have htoken := hclean token htoken
      cases token with
      | string text => exact fun c hc => (htoken c hc).1
      | symbol c => exact htoken
      | lexeme text => exact htoken

/-! ## The documents -/

/-- The document with members of a kind for a device. -/
def documentOf (token kind : Text) (members : List (Text × Value)) : Value :=
  .object [
    ("to".toList, .string token),
    ("data".toList, .object [(kind, .object members)])]

/-- A document that is addressed to a device and has members in its data. -/
def Carries (token kind : Text) (members : List (Text × Value)) (document : Value) : Prop :=
  document.member "to".toList = some (.string token) ∧
    ∃ data content, document.member "data".toList = some data ∧
      data.member kind = some content ∧
      ∀ member ∈ members, content.member member.1 = some member.2

/-- A document that carries the members is not shorter than the one that is meant. -/
theorem size_le_of_carries {token kind : Text} {members : List (Text × Value)}
    (hne : members ≠ []) (hnodup : (members.map Prod.fst).Nodup) {document : Value}
    (h : Carries token kind members document) :
    (documentOf token kind members).size ≤ document.size := by
  obtain ⟨hto, data, content, hdata, hcontent, hmembers⟩ := h
  have hinner := Value.membersSize_lt hne hnodup hmembers
  have hmiddle : membersSize [(kind, content)] < data.size :=
    Value.membersSize_lt (by simp) (by simp) (by simpa using hcontent)
  have houter : membersSize [("to".toList, .string token), ("data".toList, data)]
      < document.size := by
    have hnames : ([("to".toList, Value.string token), ("data".toList, data)].map
        Prod.fst).Nodup := by
      simp
    have hall : ∀ member ∈ [("to".toList, Value.string token), ("data".toList, data)],
        document.member member.1 = some member.2 := by
      simp only [List.mem_cons, List.not_mem_nil, or_false]
      rintro member (rfl | rfl)
      · exact hto
      · exact hdata
    exact Value.membersSize_lt (List.cons_ne_nil _ _) hnames hall
  have hdocument : (documentOf token kind members).size
      = membersSize [("to".toList, .string token),
          ("data".toList, .object [(kind, .object members)])] + 1 :=
    Value.size_object (by simp)
  have hnested : (Value.object [(kind, .object members)]).size
      = membersSize [(kind, .object members)] + 1 := Value.size_object (by simp)
  have hdeepest : (Value.object members).size = membersSize members + 1 :=
    Value.size_object hne
  simp only [membersSize, memberSize, List.map_cons, List.map_nil, List.sum_cons,
    List.sum_nil] at *
  omega

/-! ## The requests -/

/-- The command line up to the authorization key. -/
def postCommand : Text :=
  "curl -X POST --header \"Authorization: key=".toList

/-- The words of it. -/
def postCommandWords : List Text :=
  ["curl".toList, "-X".toList, "POST".toList, "--header".toList]

/-- The beginning of the word with the key. -/
def authorization : Text :=
  "Authorization: key=".toList

/-- The first words of the command, up to the open header. -/
theorem scan_postCommand :
    Shell.lexer.scan .between postCommand
      = some (postCommandWords.flatMap Shell.wordTokens ++ authorization.map .letter,
          .double) := by
  decide +kernel

/-- The command line from the key to the address. -/
def contentType : Text :=
  "\" --header \"Content-Type: application/json\" ".toList

/-- The words of it. -/
def contentTypeWords : List Text :=
  ["--header".toList, "Content-Type: application/json".toList]

/-- The words up to the address. -/
theorem scan_contentType :
    Shell.lexer.scan .double contentType
      = some (.endWord :: contentTypeWords.flatMap Shell.wordTokens, .between) := by
  decide +kernel

/-- The command line from the address to the quotes of the document. -/
def documentOption : Text :=
  " -d \"".toList

/-- The words up to the document. -/
theorem scan_documentOption :
    Shell.lexer.scan .word documentOption
      = some (.endWord :: Shell.wordTokens ['-', 'd'], .double) := by
  decide +kernel

/-- The words before the document. -/
def postWords (authorizationKey url : Text) : List Text :=
  postCommandWords ++ (authorization ++ authorizationKey) ::
    (contentTypeWords ++ [url, ['-', 'd']])

/-- Words of which one is read in two parts. -/
theorem flatMap_wordTokens (before after : List Text) (first second last option : Text) :
    (before ++ (first ++ second) :: (after ++ [last, option])).flatMap Shell.wordTokens
      = (before.flatMap Shell.wordTokens ++ first.map .letter) ++ (second.map .letter ++
        (.endWord :: after.flatMap Shell.wordTokens ++ (last.map .letter ++
          .endWord :: Shell.wordTokens option))) := by
  simp [Shell.wordTokens]

/-- The command line up to the quotes of the document. -/
def opening (authorizationKey url : Text) : Text :=
  postCommand ++ (authorizationKey ++ (contentType ++ (url ++ documentOption)))

/-- All words in front of the document. -/
theorem scan_opening {authorizationKey url : Text}
    (hkey : Shell.isInert authorizationKey = true) (hurl : Shell.isBare url = true) :
    Shell.lexer.scan .between (opening authorizationKey url)
      = some ((postWords authorizationKey url).flatMap Shell.wordTokens, .double) := by
  rw [opening, Lexer.scan_append scan_postCommand,
    Lexer.scan_append ((Shell.scan_isInert _).1 hkey), Lexer.scan_append scan_contentType,
    Lexer.scan_append (Shell.scan_isBare hurl), scan_documentOption, postWords,
    flatMap_wordTokens]
  rfl

/-- The text of atoms, token by token. -/
theorem text_atoms_cons (token : Token) (tokens : List Token) :
    QuotedJson.text (QuotedJson.atoms (token :: tokens))
      = (match token with
        | .string text => quoted text
        | .symbol c => [c]
        | .lexeme text => text) ++ QuotedJson.text (QuotedJson.atoms tokens) := by
  have hchars : ∀ text : Text, (text.map QuotedJson.Atom.char).flatMap QuotedJson.Atom.chars
      = text := by
    intro text
    rw [List.flatMap_map]
    exact List.flatMap_singleton' text
  cases token with
  | string text =>
      simp [QuotedJson.text, QuotedJson.atoms, write, Token.write, hchars, quoted, quote,
        QuotedJson.Atom.chars]
  | symbol c => rfl
  | lexeme text => simp [QuotedJson.text, QuotedJson.atoms, write, Token.write, hchars]

/-- The text of tokens in two parts. -/
theorem text_atoms_append (tokens others : List Token) :
    QuotedJson.text (QuotedJson.atoms (tokens ++ others))
      = QuotedJson.text (QuotedJson.atoms tokens) ++ QuotedJson.text
      (QuotedJson.atoms others) := by
  simp [QuotedJson.text, QuotedJson.atoms, write]

/-- The tokens of the document that is meant. -/
theorem tokens_documentOf (token kind : Text) (members : List (Text × Value)) :
    (documentOf token kind members).tokens
      = .symbol '\x7b' :: .string "to".toList :: .symbol ':' :: .string token :: .symbol ',' ::
          .string "data".toList :: .symbol ':' ::
            ((Value.object [(kind, .object members)]).tokens ++ [.symbol '\x7d']) := by
  simp [documentOf, Value.tokens, memberTokens, comma]

/-- The text of the document that is meant, with the quote behind it. -/
theorem text_documentOf (token kind : Text) (members : List (Text × Value)) :
    QuotedJson.text (QuotedJson.atoms (documentOf token kind members).tokens ++ [.char '"'])
      = ['\x7b'] ++ memberName "to" ++ quoted token ++ [','] ++ memberName "data" ++
        QuotedJson.text (QuotedJson.atoms (Value.object [(kind, .object members)]).tokens) ++
        ['\x7d', '"'] := by
  have hend : ∀ atoms, QuotedJson.text (atoms ++ [.char '"'])
      = QuotedJson.text atoms ++ ['"'] := by
    intro atoms
    simp [QuotedJson.text, QuotedJson.Atom.chars]
  have hnil : QuotedJson.text (QuotedJson.atoms []) = [] := rfl
  rw [hend, tokens_documentOf]
  simp only [text_atoms_cons, text_atoms_append, hnil, memberName, quoted, List.append_assoc,
    List.append_nil]
  rfl

/-- The request is the opening with the document. -/
theorem buildCommonRequest_eq {authorizationKey url : Text}
    (hkey : env.config "firebaseAuthorizationKey" = some authorizationKey)
    (hurl : env.config "firebaseUrl" = some url) (token kind : Text)
    (members : List (Text × Value)) :
    buildCommonRequest env
        (QuotedJson.text (QuotedJson.atoms (Value.object [(kind, .object members)]).tokens)) token
      = .ok (opening authorizationKey url ++ QuotedJson.text
          (QuotedJson.atoms (documentOf token kind members).tokens ++ [.char '"'])) := by
  have hpost : postCommand
      = "curl -X POST".toList ++ ([' '] ++ "--header \"Authorization: key=".toList) := rfl
  have hheader : contentType
      = ['"', ' '] ++ ("--header \"Content-Type: application/json\"".toList ++ [' ']) := rfl
  have hoption : documentOption = " -d ".toList ++ ['"'] := rfl
  rw [buildCommonRequest, Handler.configured, hkey, Handler.configured, hurl, text_documentOf,
    opening, hpost, hheader, hoption]
  simp only [ok_bind, List.append_assoc]
  rfl

/-! ## Messages and requests for contact -/

/-- The members of a message. -/
def messageMembers (fromUserId toUserId : Long) (message timestamp : Text) :
    List (Text × Value) := [
  ("from".toList, .lexeme (toString fromUserId)),
  ("message".toList, .string message),
  ("timestamp".toList, .string timestamp),
  ("to".toList, .lexeme (toString toUserId))]

/-- The members of a request for contact. -/
def contactMembers (fromUserId toUserId : Long) (name : Text) : List (Text × Value) := [
  ("from".toList, .lexeme (toString fromUserId)),
  ("fromNombre".toList, .string name),
  ("toId".toList, .lexeme (toString toUserId))]

/-- The number of a user is a lexeme. -/
theorem lexeme_toString (id : Long) :
    toString id ≠ [] ∧ ∀ c ∈ toString id, isLexemeChar c = true := by
  refine ⟨Numeral.toText_ne_nil _, fun c hc => ?_⟩
  rcases Numeral.mem_toText hc with rfl | hdigit
  · rfl
  · simp [isLexemeChar, Char.isAlphanum, hdigit]

/-- The data of a message, as it is put together. -/
theorem messageData (fromUserId toUserId : Long) (message timestamp : Text) :
    QuotedJson.text (QuotedJson.atoms (Value.object [("mensaje".toList,
        .object (messageMembers fromUserId toUserId message timestamp))]).tokens)
      = ['\x7b'] ++ memberName "mensaje" ++ ['\x7b'] ++
        memberName "from" ++ toString fromUserId ++ [','] ++
        memberName "message" ++ quoted message ++ [','] ++
        memberName "timestamp" ++ quoted timestamp ++ [','] ++
        memberName "to" ++ toString toUserId ++ ['\x7d', '\x7d'] := by
  have hnil : QuotedJson.text (QuotedJson.atoms []) = [] := rfl
  simp only [messageMembers, Value.tokens, memberTokens, comma, text_atoms_cons,
    hnil, memberName, quoted, List.append_assoc, List.append_nil, List.nil_append,
    List.cons_append]

/-- The data of a request to be a contact, as it is put together. -/
theorem contactData (fromUserId toUserId : Long) (name : Text) :
    QuotedJson.text (QuotedJson.atoms (Value.object [("solicitud".toList,
        .object (contactMembers fromUserId toUserId name))]).tokens)
      = ['\x7b'] ++ memberName "solicitud" ++ ['\x7b'] ++
        memberName "from" ++ toString fromUserId ++ [','] ++
        memberName "fromNombre" ++ quoted name ++ [','] ++
        memberName "toId" ++ toString toUserId ++ ['\x7d', '\x7d'] := by
  have hnil : QuotedJson.text (QuotedJson.atoms []) = [] := rfl
  simp only [contactMembers, Value.tokens, memberTokens, comma, text_atoms_cons,
    hnil, memberName, quoted, List.append_assoc, List.append_nil, List.nil_append,
    List.cons_append]

/-- The request with a document. -/
def requestOf (authorizationKey url : Text) (document : Value) : Text :=
  opening authorizationKey url ++
    QuotedJson.text (QuotedJson.atoms document.tokens ++ [.char '"'])

/-- Which characters make up the document. -/
theorem forall_tokens_documentOf {plain : Char → Prop} (hto : ∀ c ∈ "to".toList, plain c)
    (hdata : ∀ c ∈ "data".toList, plain c) {kind : Text} (hkind : ∀ c ∈ kind, plain c)
    (token : Text) (members : List (Text × Value)) :
    (∀ part ∈ (documentOf token kind members).tokens, part.Consists plain) ↔
      (∀ c ∈ token, plain c) ∧ ∀ member ∈ members, (∀ c ∈ member.1, plain c) ∧
        ∀ part ∈ member.2.tokens, part.Consists plain := by
  have htoken : (∀ part ∈ (Value.string token).tokens, part.Consists plain) ↔
      ∀ c ∈ token, plain c := by
    simp [Value.tokens, Token.Consists]
  rw [documentOf, forall_tokens_object, List.forall_mem_cons, List.forall_mem_singleton,
    forall_tokens_object, List.forall_mem_singleton, forall_tokens_object, htoken]
  constructor
  · rintro ⟨⟨-, hclean⟩, -, -, hmembers⟩
    exact ⟨hclean, hmembers⟩
  · rintro ⟨hclean, hmembers⟩
    exact ⟨⟨hto, hclean⟩, hdata, hkind, hmembers⟩

/-- The document that is meant carries its members. -/
theorem carries_documentOf (token kind : Text) {members : List (Text × Value)}
    (hnodup : (members.map Prod.fst).Nodup) :
    Carries token kind members (documentOf token kind members) := by
  have hnames : ([("to".toList, Value.string token),
      ("data".toList, .object [(kind, .object members)])].map Prod.fst).Nodup := by
    simp
  have hto : (documentOf token kind members).member "to".toList = some (.string token) :=
    get_eq_some hnames List.mem_cons_self
  have hdata : (documentOf token kind members).member "data".toList
      = some (.object [(kind, .object members)]) :=
    get_eq_some hnames (List.mem_cons_of_mem _ List.mem_cons_self)
  have hkind : (Value.object [(kind, .object members)]).member kind = some (.object members) :=
    get_eq_some (by simp) List.mem_cons_self
  exact ⟨hto, _, _, hdata, hkind, fun member hmember => get_eq_some hnodup hmember⟩

/-- A request whose members have clean names delivers its document when the values are clean. -/
theorem delivers_requestOf_iff {authorizationKey url : Text}
    (hinert : Shell.isInert authorizationKey = true) (hbare : Shell.isBare url = true)
    (token : Text) {kind : Text} (hkind : IsClean kind) {members : List (Text × Value)}
    (hne : members ≠ []) (hnodup : (members.map Prod.fst).Nodup)
    (hnames : ∀ member ∈ members, IsClean member.1)
    (hvalues : ∀ member ∈ members, ∀ part ∈ member.2.tokens, part.Consists fun _ => True) :
    Delivers (requestOf authorizationKey url (documentOf token kind members))
        (postWords authorizationKey url) (Carries token kind members) ↔
      IsClean token ∧ ∀ member ∈ members, ∀ part ∈ member.2.tokens,
        part.Consists QuotedJson.IsClean := by
  have hto : IsClean "to".toList := by decide +kernel
  have hdata : IsClean "data".toList := by decide +kernel
  have hapart : IsApart (documentOf token kind members).tokens := isApart_tokens_object _
  have htrue : ∀ text : Text, ∀ c ∈ text, (fun _ : Char => True) c := fun _ _ _ => trivial
  have hwritten := (forall_tokens_documentOf (htrue _) (htrue _) (htrue kind) token members).2
    ⟨htrue token, fun member hmember => ⟨htrue member.1, hvalues member hmember⟩⟩
  rw [requestOf, delivers_iff (scan_opening hinert hbare) hapart hwritten
    (carries_documentOf token kind hnodup) fun _ hother => size_le_of_carries hne hnodup hother,
    forall_tokens_documentOf hto hdata hkind]
  exact and_congr_right fun _ => forall₂_congr fun member hmember =>
    and_iff_right (hnames member hmember)

/-- The tokens of the number of a user. -/
theorem consists_toString (plain : Char → Prop) (id : Long) :
    (∀ part ∈ (Value.lexeme (toString id)).tokens, part.Consists plain) ↔ True := by
  rw [Value.tokens, List.forall_mem_singleton]
  exact iff_true_intro (lexeme_toString id)

/-- A string consists of the characters of its text. -/
theorem consists_string (plain : Char → Prop) (text : Text) :
    (∀ part ∈ (Value.string text).tokens, part.Consists plain) ↔ ∀ c ∈ text, plain c := by
  rw [Value.tokens, List.forall_mem_singleton]
  rfl

/-- A message is delivered exactly when its texts are clean. -/
theorem delivers_message_iff {authorizationKey url : Text}
    (hinert : Shell.isInert authorizationKey = true) (hbare : Shell.isBare url = true)
    (fromUserId toUserId : Long) (message timestamp token : Text) :
    Delivers (requestOf authorizationKey url (documentOf token "mensaje".toList
          (messageMembers fromUserId toUserId message timestamp)))
        (postWords authorizationKey url)
        (Carries token "mensaje".toList (messageMembers fromUserId toUserId message timestamp)) ↔
      IsClean token ∧ IsClean message ∧ IsClean timestamp := by
  have hnodup : ((messageMembers fromUserId toUserId message timestamp).map Prod.fst).Nodup := by
    show ["from".toList, "message".toList, "timestamp".toList, "to".toList].Nodup
    decide +kernel
  have hclean : ∀ name ∈ ["from".toList, "message".toList, "timestamp".toList, "to".toList],
      IsClean name := by
    decide +kernel
  have hnames : ∀ member ∈ messageMembers fromUserId toUserId message timestamp,
      IsClean member.1 := List.forall_mem_map.1 hclean
  have hne : messageMembers fromUserId toUserId message timestamp ≠ [] := List.cons_ne_nil _ _
  have hvalues : ∀ plain : Char → Prop,
      (∀ member ∈ messageMembers fromUserId toUserId message timestamp,
        ∀ part ∈ member.2.tokens, part.Consists plain) ↔
          (∀ c ∈ message, plain c) ∧ ∀ c ∈ timestamp, plain c := by
    intro plain
    simp only [messageMembers, List.forall_mem_cons, List.not_mem_nil, false_imp_iff,
      implies_true, and_true, true_and, consists_string, consists_toString plain]
  have hkind : IsClean "mensaje".toList := by decide +kernel
  rw [delivers_requestOf_iff hinert hbare token hkind hne hnodup hnames
    ((hvalues _).2 ⟨fun _ _ => trivial, fun _ _ => trivial⟩), hvalues]
  rfl

/-- A request to be a contact is delivered exactly when its texts are clean. -/
theorem delivers_contact_iff {authorizationKey url : Text}
    (hinert : Shell.isInert authorizationKey = true) (hbare : Shell.isBare url = true)
    (fromUserId toUserId : Long) (name token : Text) :
    Delivers (requestOf authorizationKey url (documentOf token "solicitud".toList
          (contactMembers fromUserId toUserId name)))
        (postWords authorizationKey url)
        (Carries token "solicitud".toList (contactMembers fromUserId toUserId name)) ↔
      IsClean token ∧ IsClean name := by
  have hnodup : ((contactMembers fromUserId toUserId name).map Prod.fst).Nodup := by
    show ["from".toList, "fromNombre".toList, "toId".toList].Nodup
    decide +kernel
  have hclean : ∀ name ∈ ["from".toList, "fromNombre".toList, "toId".toList], IsClean name := by
    decide +kernel
  have hnames : ∀ member ∈ contactMembers fromUserId toUserId name, IsClean member.1 :=
    List.forall_mem_map.1 hclean
  have hne : contactMembers fromUserId toUserId name ≠ [] := List.cons_ne_nil _ _
  have hvalues : ∀ plain : Char → Prop,
      (∀ member ∈ contactMembers fromUserId toUserId name,
        ∀ part ∈ member.2.tokens, part.Consists plain) ↔ ∀ c ∈ name, plain c := by
    intro plain
    simp only [contactMembers, List.forall_mem_cons, List.not_mem_nil, false_imp_iff,
      implies_true, and_true, true_and, consists_string, consists_toString plain]
  have hkind : IsClean "solicitud".toList := by decide +kernel
  rw [delivers_requestOf_iff hinert hbare token hkind hne hnodup hnames
    ((hvalues _).2 fun _ _ => trivial), hvalues]
  rfl

/-- The notifications have the documents that are meant when the texts of the users are clean. -/
theorem notifications_faithful {authorizationKey url : Text}
    (hkey : env.config "firebaseAuthorizationKey" = some authorizationKey)
    (hurl : env.config "firebaseUrl" = some url)
    (hinert : Shell.isInert authorizationKey = true) (hbare : Shell.isBare url = true)
    (fromUserId toUserId : Long) (message timestamp name token : Text) :
    (∃ request, buildMessageRequest env fromUserId toUserId message timestamp token
      = .ok request ∧
      (Delivers request (postWords authorizationKey url) (Carries token "mensaje".toList
          (messageMembers fromUserId toUserId message timestamp)) ↔
        IsClean token ∧ IsClean message ∧ IsClean timestamp)) ∧
    ∃ request, buildContactRequest env fromUserId toUserId name token = .ok request ∧
      (Delivers request (postWords authorizationKey url) (Carries token "solicitud".toList
          (contactMembers fromUserId toUserId name)) ↔
        IsClean token ∧ IsClean name) := by
  constructor
  · refine ⟨requestOf authorizationKey url (documentOf token "mensaje".toList
      (messageMembers fromUserId toUserId message timestamp)), ?_, ?_⟩
    · rw [buildMessageRequest, ← messageData]
      exact buildCommonRequest_eq env hkey hurl token _ _
    · exact delivers_message_iff hinert hbare fromUserId toUserId message timestamp token
  · refine ⟨requestOf authorizationKey url (documentOf token "solicitud".toList
      (contactMembers fromUserId toUserId name)), ?_, ?_⟩
    · rw [buildContactRequest, ← contactData]
      exact buildCommonRequest_eq env hkey hurl token _ _
    · exact delivers_contact_iff hinert hbare fromUserId toUserId name token

/-- A server with an authorization key and the address of Firebase. -/
def notifying : Environment :=
  { Environment.quiet with
    config := fun configKey =>
      if configKey = "firebaseUrl" then some "https://fcm.googleapis.com/fcm/send".toList
      else some "AIza".toList }

/-- A message and a request to be a contact of letters and digits are delivered. -/
theorem notifications_letters :
    (∃ request, buildMessageRequest notifying 1 2 "hola".toList "10:00".toList "d1".toList
          = .ok request ∧
      Delivers request (postWords "AIza".toList "https://fcm.googleapis.com/fcm/send".toList)
        (Carries "d1".toList "mensaje".toList
          (messageMembers 1 2 "hola".toList "10:00".toList))) ∧
    ∃ request, buildContactRequest notifying 1 2 "Ana Paz".toList "d1".toList = .ok request ∧
      Delivers request (postWords "AIza".toList "https://fcm.googleapis.com/fcm/send".toList)
        (Carries "d1".toList "solicitud".toList (contactMembers 1 2 "Ana Paz".toList)) := by
  obtain ⟨⟨message, hmessage, hsends⟩, contact, hcontact, hasks⟩ :=
    notifications_faithful notifying rfl rfl (by decide +kernel) (by decide +kernel) 1 2
      "hola".toList "10:00".toList "Ana Paz".toList "d1".toList
  refine ⟨⟨message, hmessage, hsends.mpr ⟨?_, ?_, ?_⟩⟩, contact, hcontact, hasks.mpr ⟨?_, ?_⟩⟩
  all_goals exact of_decide_eq_true (by decide +kernel)

/-- A message that ends the quotes and begins another command. -/
def injectedMessage : Text :=
  "\";reboot #".toList

/-- The notification is lost, and the shell runs the other command. -/
theorem buildMessageRequest_injected :
    ∃ request, buildMessageRequest notifying 1 2 injectedMessage "10:00".toList "d1".toList
        = .ok request ∧
      ¬ Delivers request
        (postWords "AIza".toList "https://fcm.googleapis.com/fcm/send".toList)
        (Carries "d1".toList "mensaje".toList
          (messageMembers 1 2 injectedMessage "10:00".toList)) ∧
      ∃ read, Shell.lex (cString request)
        = some (read ++ .operator ';' :: Shell.wordTokens "reboot".toList) := by
  refine ⟨requestOf "AIza".toList "https://fcm.googleapis.com/fcm/send".toList
    (documentOf "d1".toList "mensaje".toList (messageMembers 1 2 injectedMessage "10:00".toList)),
    ?_, ?_, ?_⟩
  · rw [buildMessageRequest, ← messageData]
    exact buildCommonRequest_eq notifying rfl rfl _ _ _
  · rw [delivers_message_iff (by decide +kernel) (by decide +kernel)]
    decide +kernel
  · refine ⟨(postWords "AIza".toList
      "https://fcm.googleapis.com/fcm/send".toList).flatMap Shell.wordTokens ++ Shell.wordTokens
        "\x7b\"to\":\"d1\",\"data\":\x7b\"mensaje\":\x7b\"from\":1,\"message\":\"".toList, ?_⟩
    decide +kernel

end TallerII.NotificationSender
