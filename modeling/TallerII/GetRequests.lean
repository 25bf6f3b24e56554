import TallerII.Delivery
import TallerII.Isolation

/-!
# Requests that read

A request with the method `GET`, to whatever URL, writes the tokens of the session that it
presents and marks messages to the user of the session as received. `get_onlyReads` says that this
is all.
-/

namespace TallerII

open Handler Manager PersonManager SessionManager Lib

/-- A message as a reader leaves it. -/
def Delivered (reader : Option Long) (before after : MessagesManager.Message) : Prop :=
  after = before ∨
    reader = some before.toUserId ∧ after = { before with state := MessagesManager.stateReceived }

/-- Two readings deliver as one. -/
theorem Delivered.trans {reader : Option Long} {first second third : MessagesManager.Message}
    (hfirst : Delivered reader first second) (hlast : Delivered reader second third) :
    Delivered reader first third := by
  rcases hfirst with rfl | ⟨hreader, rfl⟩
  · exact hlast
  · rcases hlast with rfl | ⟨-, rfl⟩
    · exact .inr ⟨hreader, rfl⟩
    · exact .inr ⟨hreader, rfl⟩

/-- The same of all messages of a conversation. -/
theorem forall₂_delivered_trans {reader : Option Long}
    {first second third : List MessagesManager.Message}
    (hfirst : List.Forall₂ (Delivered reader) first second)
    (hlast : List.Forall₂ (Delivered reader) second third) :
    List.Forall₂ (Delivered reader) first third := by
  induction hfirst generalizing third with
  | nil =>
      cases hlast
      exact .nil
  | cons hhead _ ih =>
      cases hlast with
      | cons hnext hrest => exact .cons (hhead.trans hnext) (ih hrest)

/-- Nothing changed but tokens and the deliveries of messages to the reader. -/
structure OnlyReads (reader : Option Long) (server next : Server) : Prop where
  files : next.files = server.files
  kept : ∀ other, (∀ rest, other ≠ key .userToken rest) →
    (∀ left right, other ≠ MessagesManager.getKey left right) →
    next.db.existsKey other = server.db.existsKey other
  conversations : ∀ left right messages,
    MessagesManager.getMessages server.db left right = .ok messages → ∃ after,
      MessagesManager.getMessages next.db left right = .ok after ∧
        List.Forall₂ (Delivered reader) messages after

/-- Only reading is a preorder. -/
instance (reader : Option Long) : IsPreorder Server (OnlyReads reader) where
  refl server := by
    refine ⟨rfl, fun _ _ _ => rfl, fun left right messages hread => ⟨messages, hread, ?_⟩⟩
    exact List.forall₂_same.mpr fun _ _ => .inl rfl
  trans server between next hfirst hlast := by
    refine ⟨hlast.files.trans hfirst.files, ?_, ?_⟩
    · intro other htoken hconversation
      exact (hlast.kept other htoken hconversation).trans (hfirst.kept other htoken hconversation)
    · intro left right messages hread
      obtain ⟨middle, hmiddle, hdelivered⟩ := hfirst.conversations left right messages hread
      obtain ⟨after, hafter, hmore⟩ := hlast.conversations left right middle hmiddle
      exact ⟨after, hafter, forall₂_delivered_trans hdelivered hmore⟩

/-- Changes of tokens are allowed to a reader. -/
theorem OnlyReads.of_onlyTokens {reader : Option Long} {server : Server} {db : DB}
    (h : OnlyTokens server.db db) : OnlyReads reader server { server with db } := by
  refine ⟨rfl, fun other htoken _ => h other htoken, fun left right messages hread => ?_⟩
  refine ⟨messages, ?_, List.forall₂_same.mpr fun _ _ => .inl rfl⟩
  rw [← hread]
  exact getMessages_congr (h _ (by simp))

/-- Marking the messages of a window. -/
theorem OnlyReads.of_deliveries {reader : Long} (server : Server) (toUserId : Long)
    (delivered : List MessagesManager.Message) :
    OnlyReads (some reader) server { server with
      db := (MessagesManager.setMessagesAsReceived server.db reader toUserId delivered).2 } := by
  refine ⟨rfl, fun other _ hconversation => ?_, fun left right messages hread => ?_⟩
  · exact MessagesManager.existsKey_setMessagesAsReceived (hconversation _ _).symm delivered
  · unfold MessagesManager.setMessagesAsReceived
    have hsame : List.Forall₂ (Delivered (some reader)) messages messages :=
      List.forall₂_same.mpr fun _ _ => .inl rfl
    split
    · exact ⟨messages, hread, hsame⟩
    · rename_i current hcurrent
      simp only [MessagesManager.getMessages_saveConversation]
      split
      · rename_i hkey
        have hmessages : messages = current := by
          rw [MessagesManager.getMessages, ← hkey] at hread
          rw [MessagesManager.getMessages, hread] at hcurrent
          exact Except.ok.inj hcurrent
        subst hmessages
        refine ⟨_, rfl,
          List.forall₂_map_right_iff.mpr (List.forall₂_same.mpr fun message _ => ?_)⟩
        rw [MessagesManager.markReceived_eq]
        split
        · rename_i hmarked
          exact .inr ⟨congrArg some hmarked.2, rfl⟩
        · exact .inl rfl
      · exact ⟨messages, hread, hsame⟩

section Methods

variable {env : Environment} {httpMessage : HttpMessage}

/-- Reading messages marks those to the user of the session. -/
theorem onlyReads_messages_get (session : Option Session) (url : Text) :
    Within (OnlyReads (session.map Session.userId))
      (MessagesHandler.handleGetRequest session httpMessage url) := by
  refine within_handling (within_bind_ofExcept fun fromUserId _ => ?_)
  refine within_own (fun _ hsame => (samePerson_eq hsame).symm) fun hsession => ?_
  refine within_bind_ofExcept fun toUserId _ => .bind (within_query _) fun messages _ => ?_
  refine within_bind_ofExcept fun window _ => .bind (within_onStore fun server => ?_) fun _ _ =>
    .pure _
  rw [hsession]
  exact .of_deliveries server toUserId window.messagesToReturn

/-- The access control writes tokens only. -/
theorem onlyReads_controlAccess {reader : Option Long} :
    Within (OnlyReads reader) (controlAccess env httpMessage) := by
  refine .ite (fun _ => .throw _) fun _ => within_onStore fun server => ?_
  exact .of_onlyTokens
    (@onlyTokens_session env.clock server.db (.getSession env.readings _) (by simp))

/-- The method that reads, of the handler of any route. -/
theorem onlyReads_handleGetRequest {lib : TextLibrary} {sorting : SearchHandler.Sorting}
    {route : WebHandler.Route} {handler : Handler}
    (h : WebHandler.handlerOf env (SearchHandler.handler lib sorting) route = some handler)
    (session : Option Session) (url : Text) :
    Within (OnlyReads (session.map Session.userId))
      (handler.handleGetRequest session httpMessage url) := by
  cases route with
  | users => cases h; exact within_users_get session httpMessage url
  | picture => cases h; exact within_picture_get session httpMessage url
  | contacts => cases h; exact within_contacts_get session httpMessage url
  | login => cases h; exact .pure _
  | facebookLogin => cases h; exact .pure _
  | recommendations => cases h; exact .pure _
  | messages => cases h; exact onlyReads_messages_get session url
  | conversations => cases h; exact within_conversations_get session httpMessage url
  | notificationTokens => cases h; exact .pure _
  | search => cases h; exact within_query _
  | special => cases h
  | unknown => cases h

end Methods

/-- Reading changes nothing but tokens, and the messages to the user of the session, each of which
can become received: no file, no profile, no list and no text of a message, whatever the URL and
however the request ends. -/
theorem get_onlyReads {lib : TextLibrary} {sorting : SearchHandler.Sorting} {server next : Server}
    {request : Request} (hget : request.httpMessage.method = "GET".toList)
    (h : Serves lib sorting server request next) :
    OnlyReads (request.maker server).user server next := by
  obtain rfl := h
  rw [handleRequestIn_of_get request.shell request.env _ hget, WebHandler.handleRequest,
    Action.serve_handling_snd]
  split
  · rename_i handler hroute
    rw [Handler.handleRequest, Action.serve_handling_snd, if_pos hget]
    refine @method_within request.env request.httpMessage
      (fun session => OnlyReads (session.map Session.userId)) _ ?_
      (fun _ => onlyReads_controlAccess)
        _ _ (fun session => onlyReads_handleGetRequest hroute session _)
      server
    rintro session before after ⟨hfiles, hkept, hconversations⟩
    refine ⟨hfiles, hkept, fun left right messages hread => ?_⟩
    obtain ⟨read, hafter, hdelivered⟩ := hconversations left right messages hread
    refine ⟨read, hafter, hdelivered.imp fun message marked hmarked => ?_⟩
    exact .inl (hmarked.resolve_right fun hreader => by cases hreader.1)
  · split
    · exact refl_of _ server
    · exact refl_of _ server

/-- Two users with two messages between them, of whom the one they were sent to is logged in. -/
def mailbox : Server where
  db := putToken stoppedClock MessagesHandler.twoMessages 0 ['t'] ['a'] 1
  files _ := none

/-- The user asks for the newest message. -/
def readsNewest : Request where
  env := Environment.quiet
  shell _ server := server
  httpMessage := { MessagesHandler.getNewest with authorization := some ['t'] }

/-- The request is made with the session of the user 1. -/
theorem user_readsNewest : (readsNewest.maker mailbox).user = some 1 := by
  decide +kernel

/-- Reading one message marks both as received, and that is all. -/
theorem get_onlyReads_newest :
    OnlyReads (some 1) mailbox (readsNewest.leaves mailbox) ∧
      MessagesManager.getMessages mailbox.db 1 2
        = .ok [MessagesHandler.sample "09:00", MessagesHandler.sample "10:00"] ∧
      MessagesManager.getMessages (readsNewest.leaves mailbox).db 1 2
        = .ok ([MessagesHandler.sample "09:00", MessagesHandler.sample "10:00"].map fun message =>
          { message with state := MessagesManager.stateReceived }) := by
  have hreads :=
    @get_onlyReads literally SearchHandler.merging mailbox (readsNewest.leaves mailbox)
    readsNewest rfl rfl
  rw [user_readsNewest] at hreads
  exact ⟨hreads, by decide +kernel, by decide +kernel⟩

end TallerII
