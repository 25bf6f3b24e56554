import TallerII.Access

/-!
# What is stored of a profile picture

The app sends a picture as a multipart body with one part. The server passes the lines before the
picture by counting line feeds, and leaves out the last four bytes of the body, while ten bytes
follow the picture. `handlePutRequest_written` gives the file that is written: the picture always
stands in it with six bytes behind it that are not the picture's. A body of another shape may make
the server read behind it: `staysWithin_iff` says of which bodies it reads and writes only what
was received.
-/

namespace TallerII.PictureHandler

open Handler SessionManager

variable (env : Environment)

/-! ## The body that the app sends -/

/-- The first two lines up to the name of the file. -/
def dispositionHeader : Text :=
  "--xx\r\nContent-Disposition: form-data; name=\"file\"; filename=\"".toList

/-- The rest of the lines before the picture. -/
def contentTypeHeader : Text :=
  "\"\r\nContent-Type: image/jpeg\r\n\r\n".toList

/-- What stands before the picture, for the name of its file. -/
def multipartHeader (name : Text) : Text :=
  dispositionHeader ++ name ++ contentTypeHeader

/-- What is left of the end of the body after its last four bytes. -/
def keptTrailer : Text :=
  "\r\n--xx".toList

/-- The body of `PhotoMultipartRequest`. -/
def multipartBody (name image : Text) : Text :=
  multipartHeader name ++ image ++ keptTrailer ++ "--\r\n".toList

/-! ## The lines before the picture -/

/-- The lines that are passed end within a text that has enough of them. -/
theorem skipHeader_eq_ok (rest : Text) (limit : Nat) {lineBreaks : Nat} {text : Text}
    (hlines : 4 ≤ lineBreaks + text.count '\n') (hfew : lineBreaks ≤ 4) :
    ∃ counter, skipHeader limit lineBreaks (text ++ rest) = .ok counter ∧
      counter ≤ text.length := by
  induction limit generalizing lineBreaks text with
  | zero => exact ⟨0, rfl, Nat.zero_le _⟩
  | succ limit ih =>
      by_cases hdone : lineBreaks = 4
      · subst hdone
        exact ⟨0, rfl, Nat.zero_le _⟩
      cases text with
      | nil =>
          simp only [List.count_nil, Nat.add_zero] at hlines
          omega
      | cons c text =>
          have hnext : 4 ≤ (if c = '\n' then lineBreaks + 1 else lineBreaks) + text.count '\n' ∧
              (if c = '\n' then lineBreaks + 1 else lineBreaks) ≤ 4 := by
            by_cases hbreak : c = '\n'
            · rw [hbreak, List.count_cons_self] at hlines
              rw [if_pos hbreak]
              omega
            · rw [List.count_cons_of_ne hbreak] at hlines
              rw [if_neg hbreak]
              omega
          obtain ⟨counter, hcounter, hle⟩ := ih hnext.1 hnext.2
          refine ⟨counter + 1, ?_, Nat.succ_le_succ hle⟩
          rw [List.cons_append, skipHeader, hcounter]
          · rfl
          · exact hdone

/-- The header of a part has four lines. -/
theorem four_le_count_multipartHeader (name : Text) :
    4 ≤ 0 + (multipartHeader name).count '\n' := by
  have hfirst : dispositionHeader.count '\n' = 1 := by decide +kernel
  have hlast : contentTypeHeader.count '\n' = 3 := by decide +kernel
  rw [multipartHeader, List.count_append, List.count_append, hfirst, hlast]
  omega

/-! ## The file that is written -/

/-- What `savePicture` writes of a body of the app: at most a part of the header, the picture and
six bytes of the trailer. -/
theorem serve_savePicture {id : Long} {path : Text} (hpath : getFilePath env id = .ok path)
    (name image memory : Text) (hsize : (multipartBody name image).length < 2 ^ 64)
    (server : Server) :
    ∃ before next,
      (savePicture env id (multipartBody name image ++ memory)
          (multipartBody name image).length).serve server = (.ok (), next) ∧
        next.files (cString path) = some (before ++ image ++ keptTrailer) := by
  obtain ⟨counter, hcounter, hle⟩ := skipHeader_eq_ok
    (image ++ keptTrailer ++ "--\r\n".toList ++ memory) 200
    (four_le_count_multipartHeader name) (Nat.zero_le 4)
  have hbody : multipartBody name image ++ memory
      = multipartHeader name ++ (image ++ keptTrailer ++ "--\r\n".toList ++ memory) := by
    simp only [multipartBody, List.append_assoc]
  have hlength : (multipartBody name image).length
      = ((multipartHeader name).drop counter ++ image ++ keptTrailer).length + counter + 4 := by
    simp only [multipartBody, List.length_append, List.length_drop]
    have hend : ("--\r\n".toList).length = 4 := rfl
    omega
  -- the unsigned length does not wrap around: what is written ends four bytes before the body
  have hcount : ((((multipartBody name image).length : Int) - counter - 4) % 2 ^ 64).toNat
      = ((multipartHeader name).drop counter ++ image ++ keptTrailer).length := by
    rw [hlength] at hsize ⊢
    omega
  have hpicture : (multipartBody name image ++ memory).drop counter
      = ((multipartHeader name).drop counter ++ image ++ keptTrailer)
        ++ ("--\r\n".toList ++ memory) := by
    rw [hbody, List.drop_append_of_le_length hle]
    simp only [List.append_assoc]
  refine ⟨(multipartHeader name).drop counter, { server with
    files := Function.update server.files (cString path)
      (some ((multipartHeader name).drop counter ++ image ++ keptTrailer)) }, ?_,
    Function.update_self (cString path) _ server.files⟩
  rw [savePicture, hpath, hbody, hcounter, ← hbody]
  simp only [Action.serve_bind, Action.serve_ofExcept, hcount, hpicture]
  rw [if_neg (by simp only [List.length_append]; omega), List.take_left]
  rfl

/-- A picture that is there already is removed. -/
theorem serve_deletePicture {id : Long} {path picture : Text}
    (hpath : getFilePath env id = .ok path) {server : Server}
    (hfile : server.files (cString path) = some picture) :
    (deletePicture env id).serve server
      = (.ok (), { server with files := Function.update server.files (cString path) none }) := by
  rw [deletePicture, hpath, Action.serve_bind, Action.serve_ofExcept]
  simp only [Action.serve, ExceptT.run_mk, StateT.run, hfile]

/-- Whether or not there was a picture before, the owner's picture is saved. -/
theorem serve_handlePutRequest {id : Long} {path url : Text}
    (hpath : getFilePath env id = .ok path) (hurl : getUserIdFromUrl url = .ok id)
    {session : SessionManager.Session} (hsession : session.userId = id)
    (httpMessage : HttpMessage)
    (server : Server) :
    ∃ cleared, (handlePutRequest env (some session) httpMessage url).serve server
      = Action.serve (do
          savePicture env id httpMessage.body httpMessage.bodyLen
          return ({} : Response).setSuccessfulHeader) cleared := by
  have hpermission : require (Security.hasPermissionToEditProfilePicture session.userId id)
      = .ok () := by
    simp [require, Security.hasPermissionToEditProfilePicture, Security.samePerson, hsession]
  have hexists : (existsPictureForId env id).serve server
      = (.ok (server.files (cString path)).isSome, server) := by
    rw [existsPictureForId, hpath, Action.serve_bind, Action.serve_ofExcept]
    rfl
  rw [handlePutRequest, hurl]
  simp only [Action.serve_bind, Action.serve_ofExcept, Handler.getUserId, hpermission, hexists]
  cases hfile : server.files (cString path) with
  | none => exact ⟨server, Action.serve_bind server _ _⟩
  | some picture =>
      exact ⟨_, (Action.serve_bind_ok (serve_deletePicture env hpath hfile)).trans
        (Action.serve_bind _ _ _)⟩

/-- A stored picture is never the picture that was sent: what is written also holds the beginning
of the boundary behind it. -/
theorem handlePutRequest_written {id : Long} {path url : Text}
    (hpath : getFilePath env id = .ok path) (hurl : getUserIdFromUrl url = .ok id)
    {session : SessionManager.Session} (hsession : session.userId = id) (name image memory : Text)
    {httpMessage : HttpMessage} (hbody : httpMessage.body = multipartBody name image ++ memory)
    (hlength : httpMessage.bodyLen = (multipartBody name image).length)
    (hsize : httpMessage.bodyLen < 2 ^ 64) (server : Server) :
    ∃ next written,
      (handlePutRequest env (some session) httpMessage url).serve server
          = (.ok ({} : Response).setSuccessfulHeader, next) ∧
        next.files (cString path) = some written ∧ written ≠ image := by
  obtain ⟨cleared, hserve⟩ := serve_handlePutRequest env hpath hurl hsession httpMessage server
  obtain ⟨before, next, hsaved, hfile⟩ :=
    serve_savePicture env hpath name image memory (hlength ▸ hsize) cleared
  refine ⟨next, before ++ image ++ keptTrailer, ?_, hfile, ?_⟩
  · rw [hserve, hbody, hlength]
    exact Action.serve_bind_ok hsaved
  · intro hsame
    have hlonger := congrArg List.length hsame
    have htrailer : keptTrailer.length = 6 := rfl
    simp only [List.length_append, htrailer] at hlonger
    omega

/-! ## A picture of two bytes -/

/-- A server that keeps its pictures beside the program. -/
def pictureServer : Environment :=
  { Environment.quiet with config := fun _ => some [] }

/-- The session of the user 7. -/
def pictureSession : SessionManager.Session where
  token := ['t']
  userMail := ['m']
  lastTime := 0
  userId := 7

/-- The bytes that are sent. -/
def twoBytes : Text :=
  [Char.ofNat 0xff, Char.ofNat 0xd8]

/-- The app sends them under the name `a.jpg`. -/
def putPicture : HttpMessage where
  method := "PUT".toList
  uri := "/profilepicture/7".toList
  queryString := []
  authorization := some ['t']
  body := multipartBody "a.jpg".toList twoBytes
  bodyLen := (multipartBody "a.jpg".toList twoBytes).length

/-- A server without users and pictures. -/
def emptyServer : Server :=
  ⟨∅, fun _ => none⟩

/-- The picture is stored without its last bytes. -/
theorem putPicture_written :
    ∃ next written,
      (handlePutRequest pictureServer (some pictureSession) putPicture putPicture.uri).serve
          emptyServer = (.ok ({} : Response).setSuccessfulHeader, next) ∧
        next.files (cString "7.jpeg".toList) = some written ∧ written ≠ twoBytes :=
  handlePutRequest_written pictureServer rfl (by decide +kernel) rfl "a.jpg".toList twoBytes []
    (List.append_nil _).symm rfl (by decide +kernel) emptyServer

/-- Six bytes too many are written. -/
theorem putPicture_trailer :
    ((handlePutRequest pictureServer (some pictureSession) putPicture putPicture.uri).serve
        emptyServer).2.files "7.jpeg".toList
      = some (twoBytes ++ "\r\n--xx".toList) := by
  decide +kernel

/-! ## Bodies of any shape -/

/-- `size - charactersCounter - 4` for a body of `size` bytes, as an unsigned difference. -/
def writtenCount (size charactersCounter : Nat) : Nat :=
  (((size : Int) - charactersCounter - 4) % 2 ^ 64).toNat

/-- Nothing but the body is received: its lines are passed without reading behind it, and no more
is written than is left of it. -/
def StaysWithin (body : Text) : Prop :=
  ∃ charactersCounter, skipHeader 200 0 body = .ok charactersCounter ∧
    charactersCounter ≤ body.length ∧
    writtenCount body.length charactersCounter ≤ body.length - charactersCounter

/-- The fourth line ends within 200 bytes and four bytes follow it, or it does not and there are
four bytes after the first 200. -/
def Framed (body : Text) : Prop :=
  (∃ lines rest, body = lines ++ '\n' :: rest ∧ lines.length < 200 ∧ lines.count '\n' = 3 ∧
    4 ≤ rest.length) ∨
  ((body.take 200).count '\n' < 4 ∧ 204 ≤ body.length)

/-- The number of line feeds up to the next byte. -/
theorem count_cons_next (c : Char) (lineBreaks : Nat) (text : Text) :
    (if c = '\n' then lineBreaks + 1 else lineBreaks) + text.count '\n'
      = lineBreaks + (c :: text).count '\n' := by
  by_cases hbreak : c = '\n'
  · rw [if_pos hbreak, hbreak, List.count_cons_self]
    omega
  · rw [if_neg hbreak, List.count_cons_of_ne hbreak]

/-- Before the fourth line feed a byte is passed. -/
theorem skipHeader_cons {limit lineBreaks : Nat} (h : lineBreaks < 4) (c : Char) (body : Text) :
    skipHeader (limit + 1) lineBreaks (c :: body) = (do
      let charactersCounter ←
        skipHeader limit (if c = '\n' then lineBreaks + 1 else lineBreaks) body
      return charactersCounter + 1) := by
  rw [skipHeader]
  omega

/-- Behind four lines the header is over. -/
theorem skipHeader_four (limit : Nat) (body : Text) : skipHeader limit 4 body = .ok 0 := by
  cases limit with
  | zero => rfl
  | succ limit => rfl

/-- The loop ends behind the fourth line feed. -/
theorem skipHeader_lines {limit lineBreaks : Nat} {lines : Text} (hlimit : lines.length < limit)
    (hlines : lineBreaks + lines.count '\n' = 3) (rest : Text) :
    skipHeader limit lineBreaks (lines ++ '\n' :: rest) = .ok (lines.length + 1) := by
  induction lines generalizing limit lineBreaks with
  | nil =>
      obtain ⟨limit, rfl⟩ := Nat.exists_eq_succ_of_ne_zero (Nat.ne_of_gt hlimit)
      obtain rfl : lineBreaks = 3 := hlines
      rw [List.nil_append, skipHeader_cons (by omega), if_pos rfl, skipHeader_four]
      rfl
  | cons c lines ih =>
      obtain ⟨limit, rfl⟩ := Nat.exists_eq_succ_of_ne_zero (Nat.ne_zero_of_lt hlimit)
      have hnext := (count_cons_next c lineBreaks lines).trans hlines
      rw [List.cons_append, skipHeader_cons (by omega), ih (Nat.lt_of_succ_lt_succ hlimit) hnext]
      rfl

/-- With fewer line feeds the loop ends at its limit. -/
theorem skipHeader_limit {limit lineBreaks : Nat} {body : Text} (hlimit : limit ≤ body.length)
    (hfew : lineBreaks + (body.take limit).count '\n' < 4) :
    skipHeader limit lineBreaks body = .ok limit := by
  induction body generalizing limit lineBreaks with
  | nil =>
      obtain rfl : limit = 0 := Nat.le_zero.mp hlimit
      rfl
  | cons c body ih =>
      cases limit with
      | zero => rfl
      | succ limit =>
          have hbreaks : lineBreaks < 4 := Nat.lt_of_le_of_lt (Nat.le_add_right _ _) hfew
          rw [List.take_succ_cons, ← count_cons_next] at hfew
          rw [skipHeader_cons hbreaks, ih (Nat.le_of_succ_le_succ hlimit) hfew]
          rfl

/-- There is no other way to end within the body. -/
theorem skipHeader_cases {limit lineBreaks counter : Nat} {body : Text} (h : lineBreaks < 4)
    (hcounter : skipHeader limit lineBreaks body = .ok counter) :
    (∃ lines rest, body = lines ++ '\n' :: rest ∧ lines.length < limit ∧
      lineBreaks + lines.count '\n' = 3 ∧ counter = lines.length + 1) ∨
    (lineBreaks + (body.take limit).count '\n' < 4 ∧ limit ≤ body.length ∧ counter = limit) := by
  induction limit generalizing lineBreaks counter body with
  | zero =>
      obtain rfl : 0 = counter := Except.ok.inj hcounter
      exact .inr ⟨by simpa using h, Nat.zero_le _, rfl⟩
  | succ limit ih =>
      cases body with
      | nil =>
          rw [skipHeader] at hcounter
          · cases hcounter
          all_goals omega
      | cons c body =>
          rw [skipHeader_cons h, bind_eq_ok] at hcounter
          obtain ⟨next, hnext, hlast⟩ := hcounter
          obtain rfl : next + 1 = counter := Except.ok.inj hlast
          by_cases hfourth : c = '\n' ∧ lineBreaks = 3
          · obtain ⟨rfl, rfl⟩ := hfourth
            rw [if_pos rfl, skipHeader_four] at hnext
            obtain rfl := Except.ok.inj hnext
            exact .inl ⟨[], body, rfl, Nat.succ_pos _, rfl, rfl⟩
          · have hfew : (if c = '\n' then lineBreaks + 1 else lineBreaks) < 4 := by
              split
              · rename_i hbreak
                have hthree : lineBreaks ≠ 3 := fun hthree => hfourth ⟨hbreak, hthree⟩
                omega
              · exact h
            rcases ih hfew hnext with ⟨lines, rest, rfl, hlimit, hlines, rfl⟩ | ⟨hcount, hle, rfl⟩
            · rw [count_cons_next] at hlines
              exact .inl ⟨c :: lines, rest, rfl, Nat.succ_lt_succ hlimit, hlines, rfl⟩
            · rw [count_cons_next] at hcount
              exact .inr ⟨hcount, Nat.succ_le_succ hle, rfl⟩

/-- The header ends within the body. -/
theorem skipHeader_le {counter : Nat} {body : Text} (h : skipHeader 200 0 body = .ok counter) :
    counter ≤ body.length := by
  rcases skipHeader_cases (by omega) h with ⟨lines, rest, rfl, -, -, rfl⟩ | ⟨-, hlimit, rfl⟩
  · simp only [List.length_append, List.length_cons]
    omega
  · exact hlimit

/-- The unsigned difference is at most what is left exactly when it does not wrap around. -/
theorem writtenCount_le_iff {size charactersCounter : Nat} (h : charactersCounter ≤ size) :
    writtenCount size charactersCounter ≤ size - charactersCounter ↔
      4 ≤ size - charactersCounter := by
  rw [writtenCount]
  omega

/-- The server stays within the body exactly when the body is framed. -/
theorem staysWithin_iff (body : Text) : StaysWithin body ↔ Framed body := by
  constructor
  · rintro ⟨counter, hcounter, hle, hcount⟩
    have hfour := (writtenCount_le_iff hle).mp hcount
    rcases skipHeader_cases (by omega) hcounter with
      ⟨lines, rest, rfl, hlimit, hlines, rfl⟩ | ⟨hfew, hlimit, rfl⟩
    · simp only [List.length_append, List.length_cons] at hfour
      exact .inl ⟨lines, rest, rfl, hlimit, by omega, by omega⟩
    · exact .inr ⟨by omega, by omega⟩
  · rintro (⟨lines, rest, rfl, hlimit, hlines, hrest⟩ | ⟨hfew, hlength⟩)
    · have hle : lines.length + 1 ≤ (lines ++ '\n' :: rest).length := by
        simp only [List.length_append, List.length_cons]
        omega
      refine ⟨lines.length + 1, skipHeader_lines hlimit (by omega) rest, hle, ?_⟩
      rw [writtenCount_le_iff hle]
      simp only [List.length_append, List.length_cons]
      omega
    · have hle : 200 ≤ body.length := by omega
      refine ⟨200, skipHeader_limit hle (by omega), hle, ?_⟩
      rw [writtenCount_le_iff hle]
      omega

/-- `savePicture` returns exactly when it stays within the body. -/
theorem serve_savePicture_returns_iff {id : Long} {path : Text}
    (hpath : getFilePath env id = .ok path)
    (body : Text) (server : Server) :
    (∃ next, (savePicture env id body body.length).serve server = (.ok (), next)) ↔
      StaysWithin body := by
  rw [savePicture, hpath]
  simp only [Action.serve_bind, Action.serve_ofExcept]
  cases hcounter : skipHeader 200 0 body with
  | error e =>
      constructor
      · rintro ⟨next, hserve⟩
        cases hserve
      · rintro ⟨counter, hok, -⟩
        rw [hcounter] at hok
        cases hok
  | ok counter =>
      have hle : counter ≤ body.length := skipHeader_le hcounter
      have hlength : (body.drop counter).length = body.length - counter := List.length_drop
      constructor
      · rintro ⟨next, hserve⟩
        refine ⟨counter, hcounter, hle, ?_⟩
        by_contra hmore
        -- the check that the picture is as long as the count stops the call
        have hshort : (body.drop counter).length < writtenCount body.length counter := by omega
        rw [writtenCount] at hshort
        dsimp only at hserve
        rw [if_pos hshort] at hserve
        cases hserve
      · rintro ⟨counter', hok, -, hcount⟩
        rw [hcounter] at hok
        obtain rfl := Except.ok.inj hok
        have hlong : ¬ (body.drop counter).length < writtenCount body.length counter := by omega
        rw [writtenCount] at hlong
        dsimp only
        rw [if_neg hlong]
        exact ⟨_, rfl⟩

/-- A body of 53 zeros is not framed: the loop reads behind it. -/
theorem zeros_not_staysWithin : ¬ StaysWithin (List.replicate 53 '0') := by
  rintro ⟨counter, hcounter, -⟩
  have hstop : skipHeader 200 0 (List.replicate 53 '0') = .error .undefinedBehaviour := by
    decide +kernel
  rw [hstop] at hcounter
  cases hcounter

end TallerII.PictureHandler
