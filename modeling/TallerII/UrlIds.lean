import TallerII.Access

/-!
# Ids in URLs

Half of the methods begin with `getUserIdFromUrl`. The id should be the numeral behind the second
slash of the URL, and anything else there a bad request. What the code reads is the number at the
front of the text behind a slash, so that more may follow it, and a number that is out of range is
not refused but fails. `parsesExactly_iff` says of which URLs the id is read as it should be.
-/

namespace TallerII

namespace Handler

open Lib.Numeral (scan Denotes denotes_toText denotes_unique mem_of_denotes scan_of_denotes)

variable (env : Environment)

/-! ## What the id should be -/

/-- What follows the first slash of a text. -/
def afterSlash (text : Text) : Text :=
  (text.dropWhile (· ≠ '/')).drop 1

/-- The part of a URL after its second slash. -/
def idPart (url : Text) : Text :=
  afterSlash (afterSlash url)

/-- The methods that begin with `getUserIdFromUrl`. -/
def idMethods : List (Option SessionManager.Session → HttpMessage → Text → Action Response) :=
  [UsersHandler.handleGetRequest, UsersHandler.handlePutRequest env,
    UsersHandler.handleDeleteRequest, PictureHandler.handleGetRequest env,
    PictureHandler.handlePutRequest env, PictureHandler.handleDeleteRequest env,
    ContactsHandler.handleGetRequest, ConversationsHandler.handleGetRequest,
    MessagesHandler.handleGetRequest, NotificationTokenHandler.handlePutRequest env]

/-- The id of a URL is read exactly where the part after the second slash is a numeral of a
`long`; every other URL is refused, and each method answers it with a bad request. -/
structure ParsesExactly (url : Text) : Prop where
  returned : ∀ userId : Long, getUserIdFromUrl url = .ok userId ↔
    Denotes (idPart url) userId.toInt
  refused : (¬ ∃ userId : Long, Denotes (idPart url) userId.toInt) →
    ∃ details, getUserIdFromUrl url = .error (.invalidRequest details) ∧
      ∀ method ∈ idMethods env, ∀ session httpMessage server,
        (Action.handling (method session httpMessage url) Handler.refused).serve server
          = (.ok (badRequest details), server)

/-! ## What is read -/

/-- Behind a slash at the front the code reads the part that it should. -/
theorem getSubUrl_slash (path : Text) : getSubUrl ('/' :: path) = idPart ('/' :: path) := rfl

/-- The id that is read is the number at the front of the text behind the slash. -/
theorem getUserIdFromUrl_eq_ok {url : Text} {userId : Long} :
    getUserIdFromUrl url = .ok userId ↔ scan (getSubUrl url) = some userId.toInt := by
  rw [← stol_eq_ok, getUserIdFromUrl, parseUrl]
  by_cases hempty : getSubUrl url = []
  · rw [if_neg (not_not_intro hempty), hempty, stol_eq_ok]
    constructor
    · intro h
      cases h
    · intro h
      cases h
  · rw [if_pos hempty]
    dsimp only
    cases stol (getSubUrl url) with
    | ok found => rfl
    | error e => cases e <;> simp [numeric]

/-- A URL is refused exactly when no number stands there. -/
theorem getUserIdFromUrl_refused {url : Text} :
    (∃ details, getUserIdFromUrl url = .error (.invalidRequest details)) ↔
      scan (getSubUrl url) = none := by
  rw [getUserIdFromUrl, parseUrl]
  by_cases hempty : getSubUrl url = []
  · rw [if_neg (not_not_intro hempty), hempty]
    exact ⟨fun _ => rfl, fun _ => ⟨_, rfl⟩⟩
  · rw [if_pos hempty]
    dsimp only
    constructor
    · rintro ⟨details, hrefused⟩
      by_contra hsome
      obtain ⟨number, hscan⟩ := Option.ne_none_iff_exists'.mp hsome
      -- a number that is out of range is not turned into a bad request
      rw [stol, hscan] at hrefused
      dsimp only at hrefused
      split at hrefused
      · cases hrefused
      · cases hrefused
    · intro hscan
      rw [stol_eq_invalidArgument.mpr hscan]
      exact ⟨_, rfl⟩

/-- A method that begins with the id of the URL throws what reading it throws. -/
theorem serve_getUserIdFromUrl {α : Type} {url : Text} {e : Exn}
    (h : getUserIdFromUrl url = .error e) (rest : Long → Action α) (server : Server) :
    Action.serve (Action.ofExcept (getUserIdFromUrl url) >>= rest) server
      = (.error e, server) := by
  rw [h]
  exact Action.serve_bind_error rfl

/-- A method that leaves the exception to `handleRequest` is answered there. -/
theorem serve_refused {url details : Text}
    (h : getUserIdFromUrl url = .error (.invalidRequest details)) (rest : Long → Action Response)
    (server : Server) :
    (Action.handling (Action.ofExcept (getUserIdFromUrl url) >>= rest) Handler.refused).serve
      server
      = (.ok (badRequest details), server) := by
  rw [Action.serve_handling_error (serve_getUserIdFromUrl h rest server)]
  rfl

/-- A method that catches the exception itself answers the same. -/
theorem serve_caught {url details : Text}
    (h : getUserIdFromUrl url = .error (.invalidRequest details)) (rest : Long → Action Response)
    (server : Server) {catching : Exn → Except Exn Response}
    (hcatching : catching (.invalidRequest details) = .ok (badRequest details)) :
    (Action.handling (Action.handling (Action.ofExcept (getUserIdFromUrl url) >>= rest) catching)
      Handler.refused).serve server = (.ok (badRequest details), server) := by
  apply Action.serve_handling_ok
  rw [Action.serve_handling_error (serve_getUserIdFromUrl h rest server), hcatching]

/-- Each method answers a refused URL with a bad request and changes nothing. -/
theorem idMethods_refused {url details : Text}
    (h : getUserIdFromUrl url = .error (.invalidRequest details)) :
    ∀ method ∈ idMethods env, ∀ session httpMessage server,
      (Action.handling (method session httpMessage url) Handler.refused).serve server
        = (.ok (badRequest details), server) := by
  intro method hmethod session httpMessage server
  simp only [idMethods, List.mem_cons, List.not_mem_nil, or_false] at hmethod
  rcases hmethod with rfl | rfl | rfl | rfl | rfl | rfl | rfl | rfl | rfl | rfl
  · exact serve_caught h _ server rfl
  · exact serve_refused h _ server
  · exact serve_caught h _ server rfl
  · exact serve_caught h _ server rfl
  · exact serve_refused h _ server
  · exact serve_refused h _ server
  all_goals exact serve_caught h _ server rfl

/-! ## Where it is what it should be -/

/-- The number that is read stands alone, or there is none and there should be none. -/
def ReadAlone (url : Text) : Prop :=
  (scan (getSubUrl url) = none ∧ ¬ ∃ userId : Long, Denotes (idPart url) userId.toInt) ∨
  ∃ userId : Long, Denotes (idPart url) userId.toInt ∧ scan (getSubUrl url) = some userId.toInt

/-- Behind a slash at the front: no number stands at the front of the part, or the part is a
numeral of a `long`. -/
theorem readAlone_slash (path : Text) :
    ReadAlone ('/' :: path) ↔
      scan (afterSlash path) = none ∨
        ∃ userId : Long, Denotes (afterSlash path) userId.toInt := by
  rw [ReadAlone, getSubUrl_slash]
  show (scan (afterSlash path) = none ∧
      ¬ ∃ userId : Long, Denotes (afterSlash path) userId.toInt) ∨
    (∃ userId : Long, Denotes (afterSlash path) userId.toInt ∧
      scan (afterSlash path) = some userId.toInt) ↔ _
  constructor
  · rintro (⟨hnone, -⟩ | ⟨userId, hdenotes, -⟩)
    · exact .inl hnone
    · exact .inr ⟨userId, hdenotes⟩
  · rintro (hnone | ⟨userId, hdenotes⟩)
    · refine .inl ⟨hnone, ?_⟩
      rintro ⟨userId, hdenotes⟩
      rw [scan_of_denotes hdenotes] at hnone
      cases hnone
    · exact .inr ⟨userId, hdenotes, scan_of_denotes hdenotes⟩

/-- The id of a URL is parsed exactly when the number that is read stands alone. -/
theorem parsesExactly_iff_readAlone (url : Text) : ParsesExactly env url ↔ ReadAlone url := by
  constructor
  · intro hexact
    by_cases hid : ∃ userId : Long, Denotes (idPart url) userId.toInt
    · obtain ⟨userId, hdenotes⟩ := hid
      exact .inr ⟨userId, hdenotes,
        getUserIdFromUrl_eq_ok.mp ((hexact.returned userId).mpr hdenotes)⟩
    · obtain ⟨details, hrefused, -⟩ := hexact.refused hid
      exact .inl ⟨getUserIdFromUrl_refused.mp ⟨details, hrefused⟩, hid⟩
  · rintro (⟨hnone, hid⟩ | ⟨userId, hdenotes, hscan⟩)
    · obtain ⟨details, hrefused⟩ := getUserIdFromUrl_refused.mpr hnone
      constructor
      · intro userId
        rw [hrefused]
        constructor
        · intro h
          cases h
        · intro hdenotes
          exact absurd ⟨userId, hdenotes⟩ hid
      · intro _
        exact ⟨details, hrefused, idMethods_refused env hrefused⟩
    · constructor
      · intro other
        rw [getUserIdFromUrl_eq_ok, hscan, Option.some.injEq, Int64.toInt_inj]
        constructor
        · rintro rfl
          exact hdenotes
        · intro hother
          exact Int64.toInt_inj.mp (denotes_unique hdenotes hother)
      · intro hnone
        exact absurd ⟨userId, hdenotes⟩ hnone

/-- The id of a URL is parsed exactly when the number that is read stands alone. For a URL that
begins with a slash: when no number stands at the front of the part, or the part is a numeral of a
`long`. -/
theorem parsesExactly_iff (url : Text) :
    (ParsesExactly env url ↔ ReadAlone url) ∧
      ∀ path : Text, ParsesExactly env ('/' :: path) ↔
        scan (afterSlash path) = none ∨ ∃ userId : Long, Denotes (afterSlash path) userId.toInt :=
  ⟨parsesExactly_iff_readAlone env url,
    fun path => (parsesExactly_iff_readAlone env _).trans (readAlone_slash path)⟩

/-- More may follow the number: this one is read as 5. -/
theorem parsesExactly_trailing_fails :
    ¬ ParsesExactly Environment.quiet "/users/5abc".toList := by
  intro hexact
  have hdenotes := (hexact.returned 5).mp (by decide)
  have hletter : 'a' ∈ idPart "/users/5abc".toList := by decide
  rcases mem_of_denotes hdenotes hletter with h | h
  · exact absurd h (by decide)
  · exact absurd h (by decide)

end Handler

end TallerII
