import TallerII.Store

/-!
# Relations between users

`RelationsManager`: under the id of a user, the contacts of the user with their statuses.
-/

namespace TallerII.RelationsManager

/-- `ACTIVE`. -/
def active : Text := "active".toList

/-- `RECEIVED`. -/
def received : Text := "received".toList

/-- `REQUESTED`. -/
def requested : Text := "requested".toList

/-- `ADD_CONTACT_ACTION`. -/
def addContactAction : Text := "add_contact".toList

/-- `ACCEPT_CONTACT_ACTION`. -/
def acceptContactAction : Text := "accept_contact".toList

/-- `REMOVE_CONTACT_ACTION`. -/
def removeContactAction : Text := "remove_contact".toList

/-- `Contact`. -/
structure Contact where
  userId : Long
  status : Text
deriving Repr, DecidableEq

/-- `Contact::Contact(Json::Value)`. -/
def Contact.ofJson (contactAsJson : Json) : Except Exn Contact := do
  let status ← (← contactAsJson.member "status").asString
  let userId ← (← contactAsJson.member "user_id").asLargestInt
  return { userId, status }

/-- The object that is stored for a contact. -/
def Contact.toJson (contact : Contact) : Json :=
  Json.ofMembers [("user_id", .ofLong contact.userId), ("status", .string contact.status)]

/-- `getContactsByUserId`. -/
def getContactsByUserId (db : DB) (userId : Long) : Except Exn (List Contact) :=
  match db.existsKey (key .contact (toString userId)) with
  | none => .ok []
  | some result => do (← result.parse.elements).mapM Contact.ofJson

/-- What `putKey` leaves of the contacts of a user. -/
def saveContacts (db : DB) (userId : Long) (contacts : List Contact) : DB :=
  db.putKey (key .contact (toString userId))
    (.json (Json.ofAppended (contacts.map Contact.toJson)))

/-- The contacts once the status of one is set: it is added when it is missing. -/
def setStatus (contacts : List Contact) (contactId : Long) (status : Text) : List Contact :=
  let updated := contacts.map fun contact =>
    if contact.userId = contactId then { contact with status } else contact
  if contacts.any (·.userId = contactId) then updated
  else updated ++ [{ userId := contactId, status }]

/-- `addOrUpdateRelation`. -/
def addOrUpdateRelation (db : DB) (keyUserId contactId : Long) (status : Text) :
    Except Exn Unit × DB :=
  match getContactsByUserId db keyUserId with
  | .error e => (.error e, db)
  | .ok currentRelationships =>
    (.ok (), saveContacts db keyUserId (setStatus currentRelationships contactId status))

/-- `removeRelation`. -/
def removeRelation (db : DB) (keyUserId contactId : Long) : Except Exn Unit × DB :=
  match getContactsByUserId db keyUserId with
  | .error e => (.error e, db)
  | .ok currentRelationships =>
    (.ok (), saveContacts db keyUserId
      (currentRelationships.filter fun contact => contact.userId ≠ contactId))

/-- Two writes one after the other. -/
def andThen (first second : DB → Except Exn Unit × DB) (db : DB) : Except Exn Unit × DB :=
  match first db with
  | (.error e, db) => (.error e, db)
  | (.ok _, db) => second db

/-- `saveRelation`. -/
def saveRelation (db : DB) (authorId contactId : Long) (action : Text) : Except Exn Unit × DB :=
  if action = addContactAction then
    andThen (addOrUpdateRelation · authorId contactId requested)
      (addOrUpdateRelation · contactId authorId received) db
  else if action = acceptContactAction then
    andThen (addOrUpdateRelation · authorId contactId active)
      (addOrUpdateRelation · contactId authorId active) db
  else if action = removeContactAction then
    andThen (removeRelation · authorId contactId) (removeRelation · contactId authorId) db
  else (.error (.invalidRequest (action ++ " is not a valid action".toList)), db)

/-! ## The keys that are written -/

variable {db : DB} {other : Text}

/-- A list of contacts is written under its own key alone. -/
theorem existsKey_saveContacts (hother : ∀ rest, other ≠ key .contact rest) (userId : Long)
    (contacts : List Contact) :
    (saveContacts db userId contacts).existsKey other = db.existsKey other := by
  rw [saveContacts, DB.existsKey_putKey, if_neg (hother _).symm]

/-- Adding or updating a contact writes lists of contacts alone. -/
theorem existsKey_addOrUpdateRelation (hother : ∀ rest, other ≠ key .contact rest)
    (keyUserId contactId : Long) (status : Text) :
    (addOrUpdateRelation db keyUserId contactId status).2.existsKey other
      = db.existsKey other := by
  unfold addOrUpdateRelation
  split
  · rfl
  · exact existsKey_saveContacts hother _ _

/-- Removing one writes lists of contacts alone. -/
theorem existsKey_removeRelation (hother : ∀ rest, other ≠ key .contact rest)
    (keyUserId contactId : Long) :
    (removeRelation db keyUserId contactId).2.existsKey other = db.existsKey other := by
  unfold removeRelation
  split
  · rfl
  · exact existsKey_saveContacts hother _ _

/-- Two operations leave what each of them leaves. -/
theorem existsKey_andThen {first second : DB → Except Exn Unit × DB}
    (hfirst : ∀ db, (first db).2.existsKey other = db.existsKey other)
    (hsecond : ∀ db, (second db).2.existsKey other = db.existsKey other) (db : DB) :
    (andThen first second db).2.existsKey other = db.existsKey other := by
  have hbefore := hfirst db
  unfold andThen
  split
  · rename_i hthrown
    rwa [hthrown] at hbefore
  · rename_i hreturned
    rw [hreturned] at hbefore
    rw [hsecond, hbefore]

/-- A relation is written under the keys of contacts only. -/
theorem existsKey_saveRelation (hother : ∀ rest, other ≠ key .contact rest)
    (authorId contactId : Long) (action : Text) :
    (saveRelation db authorId contactId action).2.existsKey other = db.existsKey other := by
  unfold saveRelation
  split
  · exact existsKey_andThen (fun _ => existsKey_addOrUpdateRelation hother _ _ _)
      (fun _ => existsKey_addOrUpdateRelation hother _ _ _) db
  · split
    · exact existsKey_andThen (fun _ => existsKey_addOrUpdateRelation hother _ _ _)
        (fun _ => existsKey_addOrUpdateRelation hother _ _ _) db
    · split
      · exact existsKey_andThen (fun _ => existsKey_removeRelation hother _ _)
          (fun _ => existsKey_removeRelation hother _ _) db
      · rfl

end TallerII.RelationsManager
