import TallerII.Commands
import TallerII.ContactLists
import TallerII.Conversations
import TallerII.Processes
import TallerII.Tokens
import TallerII.Votes

/-!
# Users among each other

Runs of requests from whatever clients there are, each handled as a whole. `belongings_kept` says
that without a request of a user's own session the profile, the password, the notification token
and the picture of the user stay as they are, and `relations_kept` that what is between two users
stays without a request of either. Only the total of recommendations in a profile is for others to
change.
-/

namespace TallerII

open Manager PersonManager SessionManager Lib

/-! ## Runs of requests -/

/-- A request, with what comes from outside while it is handled and with what running a command
does. -/
structure Request where
  env : Environment
  shell : Shell
  httpMessage : HttpMessage

/-- What a request leaves, whatever is answered. -/
def Serves (lib : TextLibrary) (sorting : SearchHandler.Sorting) (server : Server)
    (request : Request) (next : Server) : Prop :=
  ((WebHandler.handleRequestIn request.shell request.env (SearchHandler.handler lib sorting)
    request.httpMessage).serve server).2 = next

/-- The commands that the request may start leave the database and the files alone. -/
def Request.Harmless (request : Request) : Prop :=
  TallerII.Harmless request.shell request.env request.httpMessage

/-- Who makes a request, given the sessions that the server keeps. -/
def Request.maker (request : Request) (server : Server) : Principal :=
  principal request.env request.httpMessage
    (acceptedSession request.env request.httpMessage server)

/-- The request is not made with a session of the user. -/
def NotOf (userId : Long) (server : Server) (request : Request) : Prop :=
  (request.maker server).user ≠ some userId

/-- A request whose commands are harmless makes only the writes that are permitted to its maker.
-/
theorem Serves.does {lib : TextLibrary} {sorting : SearchHandler.Sorting} {server next : Server}
    {request : Request} (h : Serves lib sorting server request next)
    (hharmless : request.Harmless) :
    Does request.env (request.maker server) server next :=
  h ▸ does_handleRequestIn lib sorting hharmless server

variable {db next : DB} {userId : Long}

/-! ## What every request keeps -/

/-- Accounts with a password are those of existing users, the counter has reached every id, and
the lists of contacts are those of a network. -/
structure Sound (db : DB) : Prop extends Enterable db where
  network : ∃ network, RelationsManager.Represents db network

/-- The empty store is sound. -/
theorem Sound.empty : Sound ∅ where
  toEnterable := enterable_empty
  network := ⟨_, RelationsManager.represents_empty⟩

/-- The counter counts up. -/
theorem counted_of_effect {call : Call} {result : Outcome} (hcall : TakesDefaultId call)
    (h : Effect db call result next) {id : Long} (hid : Counted db id) : Counted next id := by
  cases h with
  | kept hon hsame hcounter => exact hid.congr hcounter
  | registered hread hfree hassigned hrecord huuid hpassword hcounter =>
      obtain rfl : _ = (-1 : Long) := hcall
      exact ((registered_fresh hassigned hcounter).2 id hid).2
  | updated hread hold hrecord huuid hpassword hcounter => exact hid.congr hcounter
  | recommended hon hread hrecord hsame hcounter => exact hid.congr hcounter
  | deleted hread hrecord huuid hpassword hcounter => exact hid.congr hcounter
  | halfDeleted hread hrecord huuid hpassword hcounter => exact hid.congr hcounter

/-- The calls that requests make register with the next id. -/
theorem Permitted.takesDefaultId {maker : Principal} {server : Server} {call : Call}
    (h : Permitted maker server (.users call)) : TakesDefaultId call := by
  cases h with
  | register juser => rfl
  | _ => trivial

/-- The calls of `SessionManager` that requests make write tokens only. -/
theorem Permitted.onlyTokens {maker : Principal} {server : Server} {call : SessionCall}
    (clock : Clock) (db : DB) (h : Permitted maker server (.tokens call)) :
    OnlyTokens db (call.run clock db) := by
  refine onlyTokens_session clock db ?_
  rintro juser forceID rfl
  cases h

/-- Contacts are written by relations alone, each as an act on the network. -/
theorem represents_exec {network : Long → Long → Option Text}
    (h : RelationsManager.Represents db network) (call : Call) :
    RelationsManager.Represents (exec db call).2 network ∨
      ∃ relation act, call = .saveOrUpdateRelation relation ∧ actOf relation = some act ∧
        RelationsManager.Represents (exec db call).2
          (RelationsManager.contactNetwork.apply network act) := by
  by_cases hcall : ∃ relation, call = .saveOrUpdateRelation relation
  · obtain ⟨relation, rfl⟩ := hcall
    rcases saveOrUpdateRelation_cases h relation with
      ⟨e, hthrown⟩ | ⟨act, next, hact, -, -, hreturned, hnext⟩
    · left
      show RelationsManager.Represents (saveOrUpdateRelation db relation).2 network
      rwa [hthrown]
    · right
      refine ⟨relation, act, rfl, hact, ?_⟩
      show RelationsManager.Represents (saveOrUpdateRelation db relation).2 _
      rwa [hreturned]
  · exact .inl (h.congr (existsKey_contact_exec fun relation hsame => hcall ⟨relation, hsame⟩))

/-- Changes of tokens keep a store sound. -/
theorem Sound.of_onlyTokens (h : Sound db) (htokens : OnlyTokens db next) : Sound next where
  toEnterable := h.toEnterable.congr (htokens.consistent h.consistent)
    (fun _ rest hfamily => htokens.ofUser hfamily rest) htokens.counter
  network := by
    obtain ⟨network, hnetwork⟩ := h.network
    exact ⟨network, hnetwork.congr fun rest => htokens.other (by decide) rest⟩

/-- So do the calls that requests make. -/
theorem Sound.exec (h : Sound db) {call : Call} (hcall : TakesDefaultId call) :
    Sound (PersonManager.exec db call).2 where
  toEnterable :=
    h.toEnterable.effect (h.consistent.exec call) (effect_exec h.consistent call) hcall
  network := by
    obtain ⟨network, hnetwork⟩ := h.network
    rcases represents_exec hnetwork call with hsame | ⟨_, _, -, -, hnext⟩
    · exact ⟨_, hsame⟩
    · exact ⟨_, hnext⟩

/-- So does every write that is permitted. -/
theorem Sound.write {env : Environment} {maker : Principal} {server next : Server}
    (h : Sound server.db) (hwrite : Writes env maker server next) : Sound next.db := by
  obtain ⟨write, hpermitted, rfl⟩ := hwrite
  cases write with
  | users call => exact h.exec hpermitted.takesDefaultId
  | tokens call => exact h.of_onlyTokens (hpermitted.onlyTokens _ _)
  | picture id contents =>
      simp only [Write.run]
      split
      · exact h
      · exact h

/-- Every server that requests lead to from an empty store is sound, when their commands are
harmless. -/
theorem Sound.of_run {lib : TextLibrary} {sorting : SearchHandler.Sorting} {start server : Server}
    {requests : List Request} (hstart : Sound start.db)
    (h : Run (Guarded (Serves lib sorting) fun _ request => request.Harmless) start requests
      server) :
    Sound server.db := by
  refine @Run.invariant _ _ _ _ _ _ (fun server : Server => Sound server.db) hstart ?_ h
  rintro server request next hserver ⟨hserves, hharmless⟩
  exact @reflTransGen_invariant _ _ (fun server : Server => Sound server.db)
    (fun _ _ hstate hwrite => hstate.write hwrite) _ _ hserver (hserves.does hharmless)

/-! ## What belongs to one user -/

/-- The profile of a user but for the total of recommendations, and the password. -/
def accountOf (db : DB) (userId : Long) : Option (Person × Option Entry) :=
  (getUserById db userId).toOption.map fun user =>
    ({ user with totRecommendations := 0 }, db.existsKey (key .userPassword user.email))

/-- Two ids that lead to the same mail are one. -/
theorem id_eq_of_mail (h : Consistent db) {left right : Long} {user other : Person}
    (hleft : getUserById db left = .ok user) (hright : getUserById db right = .ok other)
    (hmail : user.email = other.email) : left = right := by
  obtain ⟨-, hreadLeft, rfl⟩ := h.getUserById_eq_ok.mp hleft
  obtain ⟨-, hreadRight, rfl⟩ := h.getUserById_eq_ok.mp hright
  rw [hmail, hreadRight] at hreadLeft
  cases hreadLeft
  rfl

/-- An account stays when its id does, its password does and its record does, but for the total.
-/
theorem accountOf_eq (hdb : Consistent db) (hnext : Consistent next)
    (hid : next.existsKey (key .userUuid (toString userId))
      = db.existsKey (key .userUuid (toString userId)))
    (hrecord : ∀ user, getUserById db userId = .ok user → ∃ total,
      next.existsKey (key .userMail user.email)
        = some (.json ({ user with totRecommendations := total } : Person).serializeMe))
    (hpassword : ∀ user, getUserById db userId = .ok user →
      next.existsKey (key .userPassword user.email)
        = db.existsKey (key .userPassword user.email)) :
    accountOf next userId = accountOf db userId := by
  cases hread : getUserById db userId with
  | ok user =>
      obtain ⟨hmail, hstored, huser⟩ := hdb.getUserById_eq_ok.mp hread
      obtain ⟨total, htotal⟩ := hrecord user hread
      obtain ⟨-, -, hnormalized⟩ := hdb.getUserByMail_eq_ok.mp hstored
      have hafter : getUserById next userId = .ok { user with totRecommendations := total } := by
        refine hnext.getUserById_eq_ok.mpr ⟨hid.trans hmail, ?_, huser⟩
        exact getUserByMail_of_stored (normalized_rated hnormalized total) htotal
      simp only [accountOf, hread, hafter, Except.toOption, Option.map_some, hpassword user hread]
  | error e =>
      have hgone : userExists next userId = false := by
        cases hthere : userExists db userId with
        | true =>
            obtain ⟨user, huser⟩ := hdb.getUserById_of_userExists hthere
            rw [hread] at huser
            cases huser
        | false => rwa [userExists, hid]
      have hafter : (getUserById next userId).toOption = none := by
        have hnone : next.existsKey (key .userUuid (toString userId)) = none := by
          simpa [userExists] using hgone
        rw [getUserById, hnone]
        rfl
      rw [accountOf, accountOf, hread, hafter]
      rfl

/-- A call that spares an account: it registers with a new id, or it is about another user. -/
def Call.Spares (userId : Long) : Call → Prop
  | .savePerson _ forceID => forceID = -1
  | .updateUser juser => ∀ newUser, Person.ofJson juser = .ok newUser → newUser.id ≠ userId
  | .deletePerson id => id ≠ userId
  | _ => True

/-- A call that somebody else may make spares the account. -/
theorem Permitted.spares {maker : Principal} {server : Server} {call : Call}
    (h : Permitted maker server (.users call)) (hother : maker.user ≠ some userId) :
    Call.Spares userId call := by
  cases h with
  | register juser => rfl
  | update huser hown =>
      intro newUser hread hsame
      rw [hown newUser hread] at hsame
      exact hother (hsame ▸ huser)
  | delete huser => exact fun hsame => hother (hsame ▸ huser)
  | _ => trivial

/-- The record of a user who is there. -/
theorem stored_of_getUserById (h : Consistent db) {user : Person}
    (hread : getUserById db userId = .ok user) :
    db.existsKey (key .userMail user.email) = some (.json user.serializeMe) := by
  obtain ⟨-, hmail, -⟩ := h.getUserById_eq_ok.mp hread
  exact (h.getUserByMail_eq_ok.mp hmail).1

/-- What is written under the mail of somebody else leaves an account. -/
theorem accountOf_elsewhere (h : Consistent db) (hnext : Consistent next) {mail : Text}
    (hmail : ∀ user, getUserById db userId = .ok user → mail ≠ user.email)
    (hid : next.existsKey (key .userUuid (toString userId))
      = db.existsKey (key .userUuid (toString userId)))
    (hrecord : ∀ other, mail ≠ other →
      next.existsKey (key .userMail other) = db.existsKey (key .userMail other))
    (hpassword : ∀ other, mail ≠ other →
      next.existsKey (key .userPassword other) = db.existsKey (key .userPassword other)) :
    accountOf next userId = accountOf db userId := by
  refine accountOf_eq h hnext hid ?_ ?_
  · intro user hread
    refine ⟨user.totRecommendations, ?_⟩
    rw [hrecord _ (hmail user hread)]
    exact stored_of_getUserById h hread
  · intro user hread
    exact hpassword _ (hmail user hread)

/-- A new total of recommendations, of whomever it is, leaves an account. -/
theorem accountOf_of_recommended (h : Consistent db) (hnext : Consistent next) {rated : Person}
    {total : Int32} (hread : getUserByMail db rated.email = .ok rated)
    (hrecord : ∀ mail, next.existsKey (key .userMail mail)
      = if rated.email = mail then
          some (.json ({ rated with totRecommendations := total } : Person).serializeMe)
        else db.existsKey (key .userMail mail))
    (hsame : ∀ family rest, family = .userUuid ∨ family = .userPassword →
      next.existsKey (key family rest) = db.existsKey (key family rest)) :
    accountOf next userId = accountOf db userId := by
  refine accountOf_eq h hnext (hsame _ _ (.inl rfl)) ?_ fun user _ => hsame _ _ (.inr rfl)
  intro user huser
  rw [hrecord]
  split
  · rename_i hmail
    obtain ⟨-, hstored, -⟩ := h.getUserById_eq_ok.mp huser
    rw [← hmail, hread] at hstored
    cases hstored
    exact ⟨_, rfl⟩
  · exact ⟨user.totRecommendations, stored_of_getUserById h huser⟩

/-- A deletion of somebody else, also one that stops after the password, leaves an account. -/
theorem accountOf_of_deleted (h : Consistent db) (hnext : Consistent next) {id : Long}
    {gone : Person}
    (hne : id ≠ userId) (hread : getUserById db id = .ok gone)
    (hrecord : ∀ mail, gone.email ≠ mail →
      next.existsKey (key .userMail mail) = db.existsKey (key .userMail mail))
    (hid : ∀ rest, next.existsKey (key .userUuid rest)
      = if toString gone.id = rest then none else db.existsKey (key .userUuid rest))
    (hpassword : ∀ mail, next.existsKey (key .userPassword mail)
      = if gone.email = mail then none else db.existsKey (key .userPassword mail)) :
    accountOf next userId = accountOf db userId := by
  obtain ⟨-, -, hsame⟩ := h.getUserById_eq_ok.mp hread
  refine accountOf_elsewhere h hnext ?_ ?_ hrecord ?_
  · exact fun user huser hmail => hne (id_eq_of_mail h hread huser hmail)
  · rw [hid, if_neg]
    rw [toString_inj, hsame]
    exact hne
  · intro mail hmail
    rw [hpassword, if_neg hmail]

/-- The calls that spare an account leave it, however they end. -/
theorem accountOf_exec (h : Consistent db) (hcounted : Counted db userId) {call : Call}
    (hcall : Call.Spares userId call) :
    accountOf (PersonManager.exec db call).2 userId = accountOf db userId := by
  have heffect := effect_exec h call
  have hnext : Consistent (PersonManager.exec db call).2 := h.exec call
  generalize (PersonManager.exec db call).1 = result at heffect
  generalize (PersonManager.exec db call).2 = next at heffect hnext ⊢
  cases heffect with
  | kept hcall hsame hcounter =>
      refine accountOf_eq h hnext (hsame _ _ (.inr (.inl rfl))) ?_ ?_
      · intro user hread
        exact ⟨user.totRecommendations,
          (hsame _ _ (.inl rfl)).trans (stored_of_getUserById h hread)⟩
      · intro user hread
        exact hsame _ _ (.inr (.inr rfl))
  | @registered _ _ _ newUser _ _ hread hfree hassigned hrecord hid hpassword hcounter =>
      obtain rfl : _ = (-1 : Long) := hcall
      have hnew := ((registered_fresh hassigned hcounter).2 userId hcounted).1
      refine @accountOf_elsewhere _ _ _ h hnext newUser.email ?_ ?_ ?_ ?_
      · intro user huser hmail
        rw [hmail, stored_of_getUserById h huser] at hfree
        cases hfree
      · rw [hid, if_neg]
        rw [toString_inj]
        exact hnew.symm
      · intro mail hmail
        rw [hrecord, if_neg hmail]
      · intro mail hmail
        rw [hpassword, if_neg hmail]
  | @updated _ _ oldUser _ hread hold hrecord hid hpassword hcounter =>
      refine @accountOf_elsewhere _ _ _ h hnext oldUser.email ?_ (hid _) ?_ ?_
      · exact fun user huser hmail => hcall _ hread (id_eq_of_mail h hold huser hmail)
      · intro mail hmail
        rw [hrecord, if_neg hmail]
      · intro mail hmail
        rw [hpassword, if_neg fun hboth => hmail hboth.1]
  | recommended hnot hread hrecord hsame hcounter =>
      exact accountOf_of_recommended h hnext hread hrecord hsame
  | deleted hread hrecord hid hpassword hcounter =>
      refine accountOf_of_deleted h hnext hcall hread (fun mail hmail => ?_) hid hpassword
      rw [hrecord, if_neg hmail]
  | halfDeleted hread hrecord hid hpassword hcounter =>
      exact accountOf_of_deleted h hnext hcall hread (fun mail _ => hrecord mail) hid hpassword

/-- Only the call for a user writes the notification token of the user. -/
theorem existsKey_notificationsToken_exec {call : Call}
    (hcall : ∀ request id, call = .setOrUpdateNotificationToken request id → id ≠ userId) :
    (PersonManager.exec db call).2.existsKey (key .notificationsToken (toString userId))
      = db.existsKey (key .notificationsToken (toString userId)) := by
  cases call with
  | savePerson juser forceID => exact existsKey_savePerson (apart_key (by simp) _) juser forceID
  | updateUser juser => exact existsKey_updateUser (apart_key (by simp) _) juser
  | deletePerson id => exact existsKey_deletePerson (apart_key (by simp) _) id
  | saveOrUpdateRelation relation => exact existsKey_saveOrUpdateRelation (by simp) relation
  | saveRecommendation recommendation =>
      exact existsKey_saveRecommendation (by simp) (by simp) recommendation
  | removeRecommendation fromUserId toUserId =>
      exact existsKey_removeRecommendation (by simp) (by simp) fromUserId toUserId
  | saveMessage now request => exact existsKey_saveMessage (by simp) now request
  | setMessagesAsReceived fromUserId toUserId delivered =>
      exact MessagesManager.existsKey_setMessagesAsReceived (by simp) delivered
  | setOrUpdateNotificationToken request id =>
      show (setOrUpdateNotificationToken db request id).2.existsKey _ = _
      simp only [setOrUpdateNotificationToken]
      split
      · rfl
      · rw [DB.existsKey_putKey, if_neg]
        simpa using hcall request id rfl

/-- The file with the picture of a user. -/
def pictureOf (env : Environment) (server : Server) (userId : Long) : Option Text :=
  match PictureHandler.getFilePath env userId with
  | .error _ => none
  | .ok path => server.files (cString path)

/-- The folder of pictures is a C string. -/
def NamesFolder (config : String → Option Text) : Prop :=
  ∀ imgDir, config "imgDir" = some imgDir → Char.ofNat 0 ∉ imgDir

/-- Two users have pictures in different files. -/
theorem filePath_ne {env : Environment} (hfolder : NamesFolder env.config) {id other : Long}
    {path otherPath : Text} (hpath : PictureHandler.getFilePath env id = .ok path)
    (hother : PictureHandler.getFilePath env other = .ok otherPath) (hne : id ≠ other) :
    cString path ≠ cString otherPath := by
  simp only [PictureHandler.getFilePath, bind_eq_ok] at hpath hother
  obtain ⟨imgDir, himgDir, hpath⟩ := hpath
  obtain ⟨sameDir, hsameDir, hother⟩ := hother
  rw [himgDir] at hsameDir
  cases hsameDir
  cases hpath
  cases hother
  have hnul : Char.ofNat 0 ∉ imgDir := by
    refine hfolder imgDir ?_
    rw [Handler.configured] at himgDir
    split at himgDir
    · cases himgDir
    · cases himgDir
      assumption
  have hplain : ∀ value : Long, Char.ofNat 0 ∉ imgDir ++ toString value ++ ".jpeg".toList := by
    intro value hmem
    rcases List.mem_append.mp hmem with hmem | hmem
    · rcases List.mem_append.mp hmem with hmem | hmem
      · exact hnul hmem
      · exact Numeral.not_mem_toText (by decide) (by decide) value.toInt hmem
    · revert hmem
      decide
  rw [cString_of_not_mem (hplain id), cString_of_not_mem (hplain other)]
  intro hsame
  have hids := List.append_cancel_left (List.append_cancel_right hsame)
  exact hne (toString_inj.mp hids)

/-- What belongs to a user is as it was. -/
structure Keeps (config : String → Option Text) (userId : Long) (server next : Server) :
    Prop where
  account : accountOf next.db userId = accountOf server.db userId
  notificationsToken : next.db.existsKey (key .notificationsToken (toString userId))
    = server.db.existsKey (key .notificationsToken (toString userId))
  picture : ∀ env : Environment, env.config = config →
    pictureOf env next userId = pictureOf env server userId

/-- Keeping what belongs to a user is a preorder. -/
instance (config : String → Option Text) (userId : Long) :
    IsPreorder Server (Keeps config userId) where
  refl _ := ⟨rfl, rfl, fun _ _ => rfl⟩
  trans _ _ _ hfirst hlast := ⟨hlast.account.trans hfirst.account,
    hlast.notificationsToken.trans hfirst.notificationsToken,
    fun env henv => (hlast.picture env henv).trans (hfirst.picture env henv)⟩

/-- A change of the store alone keeps pictures. -/
theorem Keeps.of_db {config : String → Option Text} {server : Server} {db : DB}
    (haccount : accountOf db userId = accountOf server.db userId)
    (htoken : db.existsKey (key .notificationsToken (toString userId))
      = server.db.existsKey (key .notificationsToken (toString userId))) :
    Keeps config userId server { server with db } :=
  ⟨haccount, htoken, fun _ _ => rfl⟩

/-- Changes of tokens leave the accounts. -/
theorem accountOf_of_onlyTokens (htokens : OnlyTokens db next) (userId : Long) :
    accountOf next userId = accountOf db userId := by
  have hread : getUserById next userId = getUserById db userId := by
    rw [getUserById, getUserById, htokens.other (by decide)]
    split
    · exact htokens.getUserByMail _
    · rfl
  unfold accountOf
  rw [hread]
  cases getUserById db userId with
  | error e => rfl
  | ok user =>
      have hpassword := htokens.ofUser (.inr (.inr rfl)) user.email
      simp only [Except.toOption, Option.map_some, hpassword]

/-- The writes that others may make keep what belongs to a user, and the counter past its id. -/
theorem keeps_of_write {env : Environment} {maker : Principal} {server next : Server}
    (hfolder : NamesFolder env.config) (hother : maker.user ≠ some userId)
    (hsound : Sound server.db) (hcounted : Counted server.db userId)
    (h : Writes env maker server next) :
    Counted next.db userId ∧ Keeps env.config userId server next := by
  obtain ⟨write, hpermitted, rfl⟩ := h
  cases write with
  | users call =>
      have hcounter := counted_of_effect hpermitted.takesDefaultId
        (effect_exec hsound.consistent call) hcounted
      refine ⟨hcounter, .of_db ?_ (existsKey_notificationsToken_exec ?_)⟩
      · exact accountOf_exec hsound.consistent hcounted (hpermitted.spares hother)
      · rintro request id rfl hsame
        cases hpermitted with
        | notify huser => exact hother (hsame ▸ huser)
  | tokens call =>
      have htokens := hpermitted.onlyTokens env.clock server.db
      refine ⟨hcounted.congr htokens.counter, .of_db ?_ (htokens.other (by decide) _)⟩
      exact accountOf_of_onlyTokens htokens userId
  | picture id contents =>
      have hne : id ≠ userId := by
        cases hpermitted with
        | picture huser => exact fun hsame => hother (hsame ▸ huser)
      simp only [Write.run]
      split
      · exact ⟨hcounted, refl_of _ _⟩
      · rename_i path hpath
        refine ⟨hcounted, rfl, rfl, fun other hconfig => ?_⟩
        have hsame : PictureHandler.getFilePath other userId
            = PictureHandler.getFilePath env userId := by
          simp only [PictureHandler.getFilePath, Handler.configured, hconfig]
        simp only [pictureOf, hsame]
        split
        · rfl
        · rename_i own hown
          rw [Function.update_of_ne (filePath_ne hfolder hown hpath hne.symm)]

/-- The folder of pictures in the sample requests. -/
def folder : String → Option Text :=
  fun _ => some "img/".toList

/-- The folder of the samples is a C string. -/
theorem namesFolder_folder : NamesFolder folder := by
  intro imgDir himgDir
  cases himgDir
  decide

/-- Searches in which a text matches what contains it. -/
def literally : TextLibrary where
  regex search := .ok fun subject => subject.tails.any search.isPrefixOf
  stod _ := .error (.invalidArgument "stod")

/-- What a request leaves of a server. -/
def Request.leaves (request : Request) (server : Server) : Server :=
  ((WebHandler.handleRequestIn request.shell request.env
    (SearchHandler.handler literally SearchHandler.merging) request.httpMessage).serve server).2

/-- The body of a registration. -/
def registrationBody (mail : Text) : Text :=
  (Person.sample mail [] []).serializeMe.toStyledString

/-- Somebody registers with the mail `a`. -/
def registersA : Request where
  env := { Environment.quiet with config := folder }
  shell _ server := server
  httpMessage := { deletesAnother with
    method := "POST".toList, uri := "/users".toList, authorization := none
    body := registrationBody ['a'], bodyLen := (registrationBody ['a']).length }

/-- Somebody without a session asks for the deletion of the user 1. -/
def deletesFirst : Request where
  env := { Environment.quiet with config := folder }
  shell _ server := server
  httpMessage := { deletesAnother with uri := "/users/1".toList, authorization := none }

/-- The server on which one user registered, and nothing else happened. -/
def oneUser : Server :=
  registersA.leaves { db := ∅, files := fun _ => none }

/-- Nothing is changed by a command of the registration. -/
theorem harmless_registersA : registersA.Harmless := fun _ _ _ => rfl

/-- Nor by one of the deletion. -/
theorem harmless_deletesFirst : deletesFirst.Harmless := fun _ _ _ => rfl

/-- The registration is a run from the empty store. -/
theorem run_oneUser :
    Run (Guarded (Serves literally SearchHandler.merging) fun _ request => request.Harmless)
      { db := ∅, files := fun _ => none } [registersA] oneUser :=
  Run.nil.snoc ⟨rfl, harmless_registersA⟩

/-- The id of the user was counted. -/
theorem counted_oneUser : Counted oneUser.db 1 := by
  have hlast : (oneUser.db.existsKey lastID).map Entry.asText = some ['1'] := by decide +kernel
  obtain ⟨entry, hstored, htext⟩ := Option.map_eq_some_iff.mp hlast
  refine ⟨1, ?_, le_rfl⟩
  rw [hstored, Entry.eq_text_of_asText htext (by decide)]
  rfl

/-- The deletion is made without a session. -/
theorem notOf_deletesFirst (userId : Long) (server : Server) :
    NotOf userId server deletesFirst := by
  show (none : Option Long) ≠ some userId
  simp

/-- Without a request of the user's own, what belongs to a user stays as it is: whatever requests
others make, in whatever order, the profile but for the total of recommendations, the password,
the notification token and the picture are the same afterwards, as long as the commands that the
requests start leave the database and the files alone. -/
theorem belongings_kept {lib : TextLibrary} {sorting : SearchHandler.Sorting}
    {config : String → Option Text} {start server next : Server} {before after : List Request}
    (hfolder : NamesFolder config) (hstart : Sound start.db)
    (hbefore : Run (Guarded (Serves lib sorting) fun _ request => request.Harmless)
      start before server)
    (hcounted : Counted server.db userId)
    (hafter : Run (Guarded (Serves lib sorting) fun server request => request.Harmless ∧
      NotOf userId server request ∧ request.env.config = config) server after next) :
    Keeps config userId server next := by
  have hserver : Sound server.db := hstart.of_run hbefore
  refine (@Run.within _ _ _ _ (fun server : Server => Sound server.db ∧
    Counted server.db userId) _ ?_
    _ _ _ ⟨hserver, hcounted⟩ hafter).2
  intro server request next hstate hserves
  obtain ⟨hserves, hharmless, hother, rfl⟩ := hserves
  refine @reflTransGen_within _ _ _ (fun server : Server => Sound server.db ∧
    Counted server.db userId) _ ?_ _ _ hstate (hserves.does hharmless)
  intro server next hstate hwrite
  obtain ⟨hcounter, hkept⟩ := keeps_of_write hfolder hother hstate.1 hstate.2 hwrite
  exact ⟨⟨hstate.1.write hwrite, hcounter⟩, hkept⟩

/-- A deletion by somebody else. -/
theorem belongings_kept_deletion : Keeps folder 1 oneUser (deletesFirst.leaves oneUser) :=
  belongings_kept namesFolder_folder Sound.empty run_oneUser counted_oneUser
    (Run.nil.snoc ⟨rfl, harmless_deletesFirst, notOf_deletesFirst 1 oneUser, rfl⟩)

/-! ## What is between two users -/

/-- The status of a contact in the list of a user. -/
def contactOf (db : DB) (userId contactId : Long) : Option Text :=
  (RelationsManager.getContactsByUserId db userId).toOption.bind fun contacts =>
    (contacts.find? (·.userId = contactId)).map RelationsManager.Contact.status

/-- A user recommends another one. -/
def Recommends (db : DB) (fromUserId toUserId : Long) : Prop :=
  ∃ list, RecommendationsManager.getRecommendationsByUserId db toUserId = .ok list ∧
    fromUserId ∈ list

/-- The status in a list is the link of the network. -/
theorem contactOf_of_represents {network : Long → Long → Option Text}
    (h : RelationsManager.Represents db network) (userId contactId : Long) :
    contactOf db userId contactId = network userId contactId := by
  obtain ⟨contacts, hread, hstatuses⟩ := h userId
  rw [contactOf, hread]
  show (contacts.find? (·.userId = contactId)).map _ = _
  cases hfind : contacts.find? (·.userId = contactId) with
  | some contact =>
      have hid : contact.userId = contactId := by simpa using List.find?_some hfind
      have hstatus := (hstatuses contact).mp (List.mem_of_find?_eq_some hfind)
      rw [hid] at hstatus
      exact hstatus.symm
  | none =>
      -- a status in the network would stand in the list
      cases hlink : network userId contactId with
      | none => rfl
      | some status =>
          have hmem := (hstatuses ⟨contactId, status⟩).mpr hlink
          have hmissing := List.find?_eq_none.mp hfind _ hmem
          simp at hmissing

/-- An act of somebody else leaves the link between two users. -/
theorem contactNetwork_apply_other {network : Long → Long → Option Text}
    {act : RelationsManager.Act} {user other : Long} (huser : act.authorId ≠ user)
    (hother : act.authorId ≠ other) :
    RelationsManager.contactNetwork.apply network act user other = network user other := by
  show Linking.set (Linking.set network act.authorId act.contactId _) act.contactId act.authorId _
    user other = _
  rw [Linking.set_apply, if_neg fun h => hother h.2.symm, Linking.set_apply,
    if_neg fun h => huser h.1.symm]

/-- A call that is no act of either leaves the status between two users. -/
theorem contactOf_exec {network : Long → Long → Option Text}
    (h : RelationsManager.Represents db network) {call : Call} {user other : Long}
    (hcall : ∀ relation act, call = .saveOrUpdateRelation relation → actOf relation = some act →
      act.authorId ≠ user ∧ act.authorId ≠ other) :
    contactOf (PersonManager.exec db call).2 user other = contactOf db user other := by
  rw [contactOf_of_represents h]
  rcases represents_exec h call with hsame | ⟨relation, act, hrelation, hact, hnext⟩
  · exact contactOf_of_represents hsame user other
  · obtain ⟨huser, hother⟩ := hcall relation act hrelation hact
    rw [contactOf_of_represents hnext, contactNetwork_apply_other huser hother]

/-- The author of the act that a relation asks for is the one it names. -/
theorem authorId_of_actOf {relation : Json} {act : RelationsManager.Act} {authorId : Long}
    (hact : actOf relation = some act)
    (hauthor : (relation.member "author_id" >>= Json.asLargestInt) = .ok authorId) :
    act.authorId = authorId := by
  obtain ⟨author, hmember, hread⟩ := bind_eq_ok.mp hauthor
  simp only [actOf, hmember, ok_bind, hread] at hact
  split at hact
  · rename_i found hfound
    subst hact
    simp only [bind_eq_ok] at hfound
    obtain ⟨_, -, contactId, -, _, -, text, -, hresult⟩ := hfound
    have hsome : (RelationsManager.Action.ofText text).map
        (fun action => (⟨authorId, contactId, action⟩ : RelationsManager.Act)) = some act :=
      Except.ok.inj hresult
    obtain ⟨action, -, rfl⟩ := Option.map_eq_some_iff.mp hsome
    rfl
  · cases hact

/-- A list of recommendations that is written after the total of somebody. -/
theorem getRecommendationsByUserId_updateTotal (list : List Long) (delta : Int32)
    (toUserId userId : Long) :
    RecommendationsManager.getRecommendationsByUserId
        (RecommendationsManager.updateTotalRecommendation
          (RecommendationsManager.saveRecommendations db toUserId list) delta toUserId).2 userId
      = if toUserId = userId then .ok list
        else RecommendationsManager.getRecommendationsByUserId db userId := by
  rw [RecommendationsManager.getRecommendationsByUserId_congr
      (RecommendationsManager.existsKey_updateTotalRecommendation (by simp) _ _),
    RecommendationsManager.getRecommendationsByUserId_saveRecommendations]

/-- A user who recommends changes nothing of what others recommend. -/
theorem recommends_addRecommendation {author toUserId fromUserId userId : Long}
    (hother : author ≠ fromUserId) :
    Recommends (RecommendationsManager.addRecommendation db author toUserId).2 fromUserId userId ↔
      Recommends db fromUserId userId := by
  unfold RecommendationsManager.addRecommendation
  split
  · exact Iff.rfl
  · rename_i current hcurrent
    split
    · exact Iff.rfl
    · simp only [Recommends, getRecommendationsByUserId_updateTotal]
      by_cases hsame : toUserId = userId
      · subst hsame
        simp [hcurrent, hother.symm]
      · rw [if_neg hsame]

/-- A user who takes a recommendation back changes nothing of what others recommend. -/
theorem recommends_removeRecommendation {author toUserId fromUserId userId : Long}
    (hother : author ≠ fromUserId) :
    Recommends (RecommendationsManager.removeRecommendation db author toUserId).2 fromUserId
      userId ↔
      Recommends db fromUserId userId := by
  unfold RecommendationsManager.removeRecommendation
  split
  · exact Iff.rfl
  · rename_i current hcurrent
    split
    · simp only [Recommends, getRecommendationsByUserId_updateTotal]
      by_cases hsame : toUserId = userId
      · subst hsame
        simp [hcurrent, hother.symm]
      · rw [if_neg hsame]
    · exact Iff.rfl

/-- What is recommended depends on the list alone. -/
theorem recommends_congr {fromUserId toUserId : Long}
    (h : next.existsKey (key .recommendation (toString toUserId))
      = db.existsKey (key .recommendation (toString toUserId))) :
    Recommends next fromUserId toUserId ↔ Recommends db fromUserId toUserId := by
  rw [Recommends, Recommends, RecommendationsManager.getRecommendationsByUserId_congr h]

/-- A write that somebody else may make leaves what a user recommends. -/
theorem recommends_of_permitted {maker : Principal} {server : Server} {call : Call}
    (h : Permitted maker server (.users call)) {fromUserId : Long}
    (hother : maker.user ≠ some fromUserId) (toUserId : Long) :
    Recommends (PersonManager.exec db call).2 fromUserId toUserId ↔
      Recommends db fromUserId toUserId := by
  cases h with
  | register juser =>
      exact recommends_congr (existsKey_savePerson (apart_key (by simp) _) juser _)
  | update huser hown => exact recommends_congr (existsKey_updateUser (apart_key (by simp) _) _)
  | delete huser => exact recommends_congr (existsKey_deletePerson (apart_key (by simp) _) _)
  | relate huser hown => exact recommends_congr (existsKey_saveOrUpdateRelation (by simp) _)
  | send huser hown => exact recommends_congr (existsKey_saveMessage (by simp) _ _)
  | receive huser contact delivered =>
      exact recommends_congr (MessagesManager.existsKey_setMessagesAsReceived (by simp) delivered)
  | notify huser request =>
      exact recommends_congr (existsKey_setOrUpdateNotificationToken (by simp) request _)
  | @takeBack userId huser target =>
      have hne : userId ≠ fromUserId := fun hsame => hother (hsame ▸ huser)
      show Recommends (removeRecommendation db userId target).2 _ _ ↔ _
      unfold PersonManager.removeRecommendation
      split
      · exact Iff.rfl
      · exact recommends_removeRecommendation hne
  | @recommend userId recommendation huser hown =>
      have hne : userId ≠ fromUserId := fun hsame => hother (hsame ▸ huser)
      show Recommends (saveRecommendation db recommendation).2 _ _ ↔ _
      unfold PersonManager.saveRecommendation
      split
      · exact Iff.rfl
      · rename_i author target hrequest
        have hauthor : author = userId := by
          obtain ⟨value, hmember, hread⟩ := bind_eq_ok.mp hown
          simp only [usersOfRequest, hmember, ok_bind, hread, bind_eq_ok] at hrequest
          obtain ⟨_, -, _, -, _, -, hpair⟩ := hrequest
          cases hpair
          rfl
        exact recommends_addRecommendation (hauthor ▸ hne)

/-- A write that somebody else may make leaves a conversation. -/
theorem getMessages_of_permitted {maker : Principal} {server : Server} {call : Call}
    (h : Permitted maker server (.users call)) {left right : Long}
    (hleft : maker.user ≠ some left)
    (hright : maker.user ≠ some right) :
    MessagesManager.getMessages (PersonManager.exec db call).2 left right
      = MessagesManager.getMessages db left right := by
  -- a conversation of somebody else has another key
  have hkey : ∀ {author contact : Long}, maker.user = some author →
      MessagesManager.getKey author contact ≠ MessagesManager.getKey left right := by
    intro author contact huser hsame
    rcases MessagesManager.getKey_inj.mp hsame with ⟨rfl, -⟩ | ⟨rfl, -⟩
    · exact hleft huser
    · exact hright huser
  refine getMessages_congr ?_
  cases h with
  | register juser => exact existsKey_savePerson (apart_getKey _ _) juser _
  | update huser hown => exact existsKey_updateUser (apart_getKey _ _) _
  | delete huser => exact existsKey_deletePerson (apart_getKey _ _) _
  | relate huser hown => exact existsKey_saveOrUpdateRelation (by simp) _
  | recommend huser hown => exact existsKey_saveRecommendation (by simp) (by simp) _
  | takeBack huser contact => exact existsKey_removeRecommendation (by simp) (by simp) _ _
  | notify huser request => exact existsKey_setOrUpdateNotificationToken (by simp) request _
  | receive huser contact delivered =>
      exact MessagesManager.existsKey_setMessagesAsReceived (hkey huser) delivered
  | @send userId now request huser hown =>
      show (saveMessage db now request).2.existsKey _ = _
      rcases saveMessage_cases db now request with
        ⟨e, hthrown⟩ | ⟨fromUserId, contact, message, saved, hmessage, hsaved⟩
      · rw [hthrown]
      · have hfrom : fromUserId = userId := by
          obtain ⟨value, hmember, hread⟩ := bind_eq_ok.mp hown
          simp only [messageOf, hmember, ok_bind, hread, bind_eq_ok] at hmessage
          obtain ⟨_, -, _, -, _, -, _, -, hparts⟩ := hmessage
          cases hparts
          rfl
        rw [hsaved]
        exact MessagesManager.existsKey_saveMessage (hkey (hfrom ▸ huser)) now message

/-- What is between two users is as it was. -/
structure KeepsBetween (user other : Long) (server next : Server) : Prop where
  contact : contactOf next.db user other = contactOf server.db user other
  contactBack : contactOf next.db other user = contactOf server.db other user
  recommends : Recommends next.db user other ↔ Recommends server.db user other
  recommendsBack : Recommends next.db other user ↔ Recommends server.db other user
  messages : MessagesManager.getMessages next.db user other
    = MessagesManager.getMessages server.db user other

/-- Keeping what is between two users is a preorder. -/
instance (user other : Long) : IsPreorder Server (KeepsBetween user other) where
  refl _ := ⟨rfl, rfl, Iff.rfl, Iff.rfl, rfl⟩
  trans _ _ _ hfirst hlast := ⟨hlast.contact.trans hfirst.contact,
    hlast.contactBack.trans hfirst.contactBack, hlast.recommends.trans hfirst.recommends,
    hlast.recommendsBack.trans hfirst.recommendsBack, hlast.messages.trans hfirst.messages⟩

/-- The writes that others may make keep what is between two users. -/
theorem keepsBetween_of_write {env : Environment} {maker : Principal} {user other : Long}
    {server next : Server} (huser : maker.user ≠ some user) (hother : maker.user ≠ some other)
    (hsound : Sound server.db) (h : Writes env maker server next) :
    KeepsBetween user other server next := by
  obtain ⟨write, hpermitted, rfl⟩ := h
  obtain ⟨network, hnetwork⟩ := hsound.network
  cases write with
  | users call =>
      have hauthor : ∀ relation act, call = .saveOrUpdateRelation relation →
          actOf relation = some act → act.authorId ≠ user ∧ act.authorId ≠ other := by
        rintro relation act rfl hact
        cases hpermitted with
        | relate hmaker hown =>
            rw [authorId_of_actOf hact hown]
            exact ⟨fun hsame => huser (hsame ▸ hmaker), fun hsame => hother (hsame ▸ hmaker)⟩
      exact {
        contact := contactOf_exec hnetwork hauthor
        contactBack := contactOf_exec hnetwork fun relation act hrelation hact =>
          (hauthor relation act hrelation hact).symm
        recommends := recommends_of_permitted hpermitted huser other
        recommendsBack := recommends_of_permitted hpermitted hother user
        messages := getMessages_of_permitted hpermitted huser hother }
  | tokens call =>
      have htokens := hpermitted.onlyTokens env.clock server.db
      have hcontacts : ∀ left right, contactOf (call.run env.clock server.db) left right
          = contactOf server.db left right := by
        intro left right
        rw [contactOf_of_represents hnetwork]
        exact contactOf_of_represents
          (hnetwork.congr fun rest => htokens.other (by decide) rest) _ _
      have hkey : (call.run env.clock server.db).existsKey (MessagesManager.getKey user other)
          = server.db.existsKey (MessagesManager.getKey user other) := htokens _ (by simp)
      exact {
        contact := hcontacts user other
        contactBack := hcontacts other user
        recommends := recommends_congr (htokens.other (by decide) _)
        recommendsBack := recommends_congr (htokens.other (by decide) _)
        messages := getMessages_congr hkey }
  | picture id contents =>
      simp only [Write.run]
      split
      · exact refl_of _ _
      · exact ⟨rfl, rfl, Iff.rfl, Iff.rfl, rfl⟩

/-- Without a request of either, nothing changes between two users: each sees the other as a
contact as before, recommends the other or not as before, and the conversation is the same, as
long as commands leave the database and the files alone. -/
theorem relations_kept {lib : TextLibrary} {sorting : SearchHandler.Sorting}
    {start server next : Server}
    {before after : List Request} {user other : Long} (hstart : Sound start.db)
    (hbefore : Run (Guarded (Serves lib sorting) fun _ request => request.Harmless)
      start before server)
    (hafter : Run (Guarded (Serves lib sorting) fun server request => request.Harmless ∧
      NotOf user server request ∧ NotOf other server request) server after next) :
    KeepsBetween user other server next := by
  have hserver : Sound server.db := hstart.of_run hbefore
  refine (@Run.within _ _ _ _ (fun server : Server => Sound server.db) _ ?_ _ _ _ hserver
    hafter).2
  intro server request next hstate hserves
  obtain ⟨hserves, hharmless, huser, hother⟩ := hserves
  refine @reflTransGen_within _ _ _ (fun server : Server => Sound server.db) _ ?_ _ _ hstate
    (hserves.does hharmless)
  intro server next hstate hwrite
  exact ⟨hstate.write hwrite, keepsBetween_of_write huser hother hstate hwrite⟩

/-- A deletion by somebody else. -/
theorem relations_kept_deletion : KeepsBetween 1 2 oneUser (deletesFirst.leaves oneUser) :=
  relations_kept Sound.empty run_oneUser
    (Run.nil.snoc ⟨rfl, harmless_deletesFirst, notOf_deletesFirst 1 oneUser,
      notOf_deletesFirst 2 oneUser⟩)

/-! ## Signing in -/

/-- The maker of a request shows the password of a user, or Facebook vouches for the user's mail.
-/
def Principal.Authenticates (maker : Principal) (db : DB) (userId : Long) : Prop :=
  ∃ profile password, accountOf db userId = some (profile, some password) ∧
    (maker.presents profile.email password.asText ∨ maker.vouched profile.email)

/-- No token is there for a user. -/
def NoToken (db : DB) (userId : Long) : Prop :=
  ∀ rest entry, db.existsKey (key .userToken rest) = some entry →
    (entry.parse.member "user_id" >>= Json.asLargestInt) ≠ .ok userId

/-- Whether there is a token depends on the records of tokens alone. -/
theorem NoToken.congr (h : NoToken db userId)
    (hsame : ∀ rest, next.existsKey (key .userToken rest) = db.existsKey (key .userToken rest)) :
    NoToken next userId := by
  intro rest entry hentry
  rw [hsame] at hentry
  exact h rest entry hentry

/-- A token of somebody else; the record of the mail names nobody, which reads as the id 0. -/
theorem NoToken.putToken (h : NoToken db userId) {id : Long} (hid : id ≠ userId)
    (hzero : userId ≠ 0) (clock : Clock) (now : Int) (token userMail : Text) :
    NoToken (putToken clock db now token userMail id) userId := by
  intro rest entry hentry
  rw [existsKey_putToken] at hentry
  split at hentry
  · cases hentry
    show ((userRecord clock now userMail id).member "user_id" >>= Json.asLargestInt) ≠ _
    rw [member_userRecord_id, ok_bind, Json.asLargestInt_ofLong]
    exact fun hsame => hid (Except.ok.inj hsame)
  · split at hentry
    · cases hentry
      show ((tokenRecord clock now token).member "user_id" >>= Json.asLargestInt) ≠ _
      rw [member_tokenRecord_id, ok_bind]
      exact fun hsame => hzero (Except.ok.inj hsame).symm
    · exact h rest entry hentry

/-- A session is one of a user whom a token names. -/
theorem NoToken.maker_user {server : Server} (h : NoToken server.db userId) (request : Request) :
    NotOf userId server request := by
  intro huser
  obtain ⟨session, haccepted, hid⟩ := Option.map_eq_some_iff.mp huser
  by_cases htoken : Handler.getHttpHeader request.httpMessage = []
  · rw [acceptedSession, Handler.controlAccess, if_pos htoken] at haccepted
    cases haccepted
  · rw [acceptedSession, Handler.controlAccess, if_neg htoken, Action.serve_onStore] at haccepted
    rcases getSession_cases request.env.clock server.db request.env.readings
        (Handler.getHttpHeader request.httpMessage) with
      ⟨e, -, hthrown⟩ | ⟨found, entry, -, hentry, -, hnamed, hsession⟩
    · rw [hthrown] at haccepted
      cases haccepted
    · rw [hsession] at haccepted
      cases haccepted
      rw [hid] at hnamed
      exact h _ entry hentry hnamed

/-- Whoever gets in has an account that the password opens. -/
theorem Sound.accountOf_of_password (h : Sound db) {userMail : Text} {password : Entry}
    {user : Person} (hpassword : db.existsKey (key .userPassword userMail) = some password)
    (hread : getUserByMail db userMail = .ok user) :
    ∃ profile, accountOf db user.id = some (profile, some password) ∧
      profile.email = userMail := by
  obtain ⟨found, hfound, hlisted⟩ := h.entered userMail (by rw [hpassword]; rfl)
  rw [hread] at hfound
  cases hfound
  obtain ⟨-, hmail, -⟩ := h.consistent.getUserByMail_eq_ok.mp hread
  have huser : getUserById db user.id = .ok user := by
    refine h.consistent.getUserById_eq_ok.mpr ⟨?_, ?_, rfl⟩
    · rw [hmail]
      exact hlisted
    · rw [hmail]
      exact hread
  refine ⟨{ user with totRecommendations := 0 }, ?_, hmail⟩
  simp only [accountOf, huser, Except.toOption, Option.map_some, hmail, hpassword]

section Issued

variable {maker : Principal} {server : Server}

/-- A sign-in issues a token for the user whose account it opened. -/
theorem Sound.ne_of_opened (hsound : Sound server.db)
    (hshown : ¬ maker.Authenticates server.db userId) {userMail : Text} {user : Person}
    {password : Entry} (hpassword : server.db.existsKey (key .userPassword userMail)
      = some password)
    (hread : getUserByMail server.db userMail = .ok user)
    (hmeans : maker.presents userMail password.asText ∨ maker.vouched userMail) :
    user.id ≠ userId := by
  rintro rfl
  obtain ⟨profile, haccount, rfl⟩ := hsound.accountOf_of_password hpassword hread
  exact hshown ⟨profile, password, haccount, hmeans⟩

/-- The token of a sign-in that did not open the account of the user. -/
theorem NoToken.of_saveToken (hnone : NoToken db userId) (hzero : userId ≠ 0) (clock : Clock)
    (now : Int)
    (token userMail : Text)
    (hother : ∀ user, getUserByMail db userMail = .ok user → user.id ≠ userId) :
    NoToken (saveToken clock db now token userMail).2 userId := by
  rcases saveToken_cases clock db now token userMail with ⟨e, hthrown⟩ | ⟨user, hread, hsaved⟩
  · rwa [hthrown]
  · rw [hsaved]
    exact hnone.putToken (hother user hread) hzero _ _ _ _

/-- A sign-in with Facebook for another mail issues no token for the user. -/
theorem NoToken.of_facebookLogin (hnone : NoToken server.db userId) (hsound : Sound server.db)
    (hzero : userId ≠ 0) (hshown : ¬ maker.Authenticates server.db userId) (clock : Clock)
    (now : Int)
    (token : Text) {userMail : Text} (hvouched : maker.vouched userMail) :
    NoToken (facebookLogin clock server.db now token userMail).2 userId := by
  unfold facebookLogin
  split
  · exact hnone
  · rename_i password hpassword
    have hsaved := hnone.of_saveToken hzero clock now token userMail fun user hread =>
      hsound.ne_of_opened hshown hpassword hread (.inr hvouched)
    rcases hresult : saveToken clock server.db now token userMail with ⟨e | saved, left⟩
    · rwa [hresult] at hsaved
    · rwa [hresult] at hsaved

/-- A login without the password of the user issues no token for the user. -/
theorem NoToken.of_login (hnone : NoToken server.db userId) (hsound : Sound server.db)
    (hzero : userId ≠ 0) (hshown : ¬ maker.Authenticates server.db userId) (clock : Clock)
    (now : Int)
    (token : Text) {userMail userPassword : Text}
    (hpresents : maker.presents userMail userPassword) :
    NoToken (login clock server.db now token userMail userPassword).2 userId := by
  unfold login
  split
  · exact hnone
  · rename_i password hpassword
    split
    · exact hnone
    · rename_i hright
      have hshows : maker.presents userMail password.asText := by rwa [not_not.mp hright]
      have hsaved := hnone.of_saveToken hzero clock now token userMail fun user hread =>
        hsound.ne_of_opened hshown hpassword hread (.inl hshows)
      rcases hresult : saveToken clock server.db now token userMail with ⟨e | saved, left⟩
      · rwa [hresult] at hsaved
      · rwa [hresult] at hsaved

/-- A session that is used again names the user that its token named. -/
theorem NoToken.of_getSession (hnone : NoToken db userId) (hzero : userId ≠ 0) (clock : Clock)
    (now : Readings) (token : Text) :
    NoToken (getSession clock db now token).2 userId := by
  rcases getSession_cases clock db now token with
    ⟨e, -, hthrown⟩ | ⟨session, entry, -, hentry, -, hnamed, hsession⟩
  · rwa [hthrown]
  · rw [hsession]
    refine hnone.putToken ?_ hzero _ _ _ _
    rintro rfl
    exact hnone _ entry hentry hnamed

/-- What the makers of requests leave of tokens: without the password of a user, or the word of
Facebook, no token for the user is issued. -/
theorem noToken_of_write {env : Environment} {next : Server}
    (hsound : Sound server.db) (hzero : userId ≠ 0) (hnone : NoToken server.db userId)
    (hshown : ¬ maker.Authenticates server.db userId) (h : Writes env maker server next) :
    NoToken next.db userId := by
  obtain ⟨write, hpermitted, rfl⟩ := h
  cases hpermitted with
  | register juser => exact hnone.congr (existsKey_token_exec _)
  | update huser hown => exact hnone.congr (existsKey_token_exec _)
  | delete huser => exact hnone.congr (existsKey_token_exec _)
  | relate huser hown => exact hnone.congr (existsKey_token_exec _)
  | recommend huser hown => exact hnone.congr (existsKey_token_exec _)
  | takeBack huser target => exact hnone.congr (existsKey_token_exec _)
  | send huser hown => exact hnone.congr (existsKey_token_exec _)
  | receive huser contact delivered => exact hnone.congr (existsKey_token_exec _)
  | notify huser request => exact hnone.congr (existsKey_token_exec _)
  | picture huser contents =>
      simp only [Write.run]
      split
      · exact hnone
      · exact hnone
  | facebookLogin now token hvouched =>
      exact hnone.of_facebookLogin hsound hzero hshown env.clock now token hvouched
  | @facebookStored now token userMail stored hvouched hstored =>
      obtain ⟨-, hmail, -⟩ := hsound.consistent.getUserByMail_eq_ok.mp hstored
      exact hnone.of_facebookLogin hsound hzero hshown env.clock now token (hmail ▸ hvouched)
  | refresh now token => exact hnone.of_getSession hzero env.clock now token
  | login now token hpresents =>
      exact hnone.of_login hsound hzero hshown env.clock now token hpresents

end Issued

/-- A user has an id, but no token. -/
structure Closed (userId : Long) (server : Server) : Prop where
  sound : Sound server.db
  counted : Counted server.db userId
  noToken : NoToken server.db userId

/-- A request that does not authenticate as a user leaves the user closed, with all belongings. -/
theorem Closed.serves {lib : TextLibrary} {sorting : SearchHandler.Sorting} {server next : Server}
    {request : Request} (h : Closed userId server) (hzero : userId ≠ 0)
    (hfolder : NamesFolder request.env.config) (hharmless : request.Harmless)
    (hshown : ¬ (request.maker server).Authenticates server.db userId)
    (hserves : Serves lib sorting server request next) :
    Closed userId next ∧ Keeps request.env.config userId server next := by
  have hother : NotOf userId server request := h.noToken.maker_user request
  have hwrite : ∀ reached last : Server, (Closed userId reached ∧
      ¬ (request.maker server).Authenticates reached.db userId) →
      Writes request.env (request.maker server) reached last →
      (Closed userId last ∧ ¬ (request.maker server).Authenticates last.db userId) ∧
        Keeps request.env.config userId reached last := by
    rintro reached last ⟨hreached, hclosed⟩ hwrite
    obtain ⟨hcounted, hkept⟩ :=
      keeps_of_write hfolder hother hreached.sound hreached.counted hwrite
    refine ⟨⟨⟨hreached.sound.write hwrite, hcounted, ?_⟩, ?_⟩, hkept⟩
    · exact noToken_of_write hreached.sound hzero hreached.noToken hclosed hwrite
    · -- the account is the same, so what does not open it before does not open it afterwards
      rwa [Principal.Authenticates, hkept.account]
  exact (reflTransGen_within hwrite ⟨h, hshown⟩ (hserves.does hharmless)).imp And.left id

/-- Signing in needs the password or the word of Facebook: from a moment when there is no token
for a user, in a run in which no request authenticates as the user and commands leave the database
and the files alone, no request is accepted as one of the user either. So what belongs to the user
stays as it is. -/
theorem belongings_kept_unauthenticated {lib : TextLibrary} {sorting : SearchHandler.Sorting}
    {config : String → Option Text} {start server next : Server} {before after : List Request}
    (hfolder : NamesFolder config) (hstart : Sound start.db)
    (hbefore : Run (Guarded (Serves lib sorting) fun _ request => request.Harmless)
      start before server)
    (hcounted : Counted server.db userId) (hzero : userId ≠ 0) (hnone : NoToken server.db userId)
    (hafter : Run (Guarded (Serves lib sorting) fun server request => request.Harmless ∧
      ¬ (request.maker server).Authenticates server.db userId ∧ request.env.config = config)
        server after next) :
    (∀ request, NotOf userId next request) ∧ Keeps config userId server next := by
  have hclosed : Closed userId server := ⟨hstart.of_run hbefore, hcounted, hnone⟩
  have hserves : ∀ server request next, Closed userId server →
      Guarded (Serves lib sorting) (fun server request => request.Harmless ∧
        ¬ (request.maker server).Authenticates server.db userId ∧ request.env.config = config)
        server request next → Closed userId next ∧ Keeps config userId server next := by
    rintro server request next hserver ⟨hserves, hharmless, hshown, rfl⟩
    exact hserver.serves hzero hfolder hharmless hshown hserves
  obtain ⟨hnext, hkept⟩ := Run.within hserves hclosed hafter
  exact ⟨hnext.noToken.maker_user, hkept⟩

/-- A registration shows no password and asks nobody for a word. -/
theorem not_authenticates_registersA (server : Server) (db : DB) (userId : Long) :
    ¬ (registersA.maker server).Authenticates db userId := by
  rintro ⟨_, _, -, ⟨⟨hroute, -⟩, -⟩ | ⟨⟨hroute, -⟩, -⟩⟩
  · revert hroute
    decide
  · revert hroute
    decide

/-- The user who registered has no token. -/
theorem noToken_oneUser : NoToken oneUser.db 1 := by
  let start : Server := { db := ∅, files := fun _ => none }
  have hstart : Sound start.db ∧ NoToken start.db 1 := by
    refine ⟨.empty, fun rest entry hentry => ?_⟩
    rw [DB.existsKey_empty] at hentry
    cases hentry
  have hdoes : Does registersA.env (registersA.maker start) start oneUser :=
    @Serves.does literally SearchHandler.merging start oneUser registersA rfl harmless_registersA
  refine (@reflTransGen_invariant _ _ (fun server : Server => Sound server.db ∧
    NoToken server.db 1)
    ?_ _ _ hstart hdoes).2
  rintro server next ⟨hsound, hnone⟩ hwrite
  refine ⟨hsound.write hwrite, ?_⟩
  exact noToken_of_write hsound (by decide) hnone (not_authenticates_registersA start server.db 1)
    hwrite

/-- A user who registered and did not log in yet. -/
theorem belongings_kept_registered :
    (∀ request, NotOf 1 (deletesFirst.leaves oneUser) request) ∧
      Keeps folder 1 oneUser (deletesFirst.leaves oneUser) := by
  have hshown : ¬ (deletesFirst.maker oneUser).Authenticates oneUser.db 1 := by
    rintro ⟨_, _, -, ⟨⟨-, hpost⟩, -⟩ | ⟨⟨-, hpost⟩, -⟩⟩
    · revert hpost
      decide
    · revert hpost
      decide
  exact belongings_kept_unauthenticated namesFolder_folder Sound.empty run_oneUser counted_oneUser
    (by decide) noToken_oneUser (Run.nil.snoc ⟨rfl, harmless_deletesFirst, hshown, rfl⟩)

end TallerII
