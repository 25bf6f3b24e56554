import TallerII.Manager

/-!
# Recommendations

`RecommendationsManager`: the users who recommended a user, kept under the id of that user, and
the total kept in the record of the user.
-/

namespace TallerII.RecommendationsManager

/-- `parseRecommendationsString`: the item at an index is the member named after the index. -/
def parseRecommendationsString (root : Json) : Except Exn (List Long) := do
  let recommendationsAsJson ← (← root.member "recommendations").elements
  recommendationsAsJson.zipIdx.mapM fun (item, index) => do
    (← item.member (Nat.repr index)).asLargestInt

/-- `getRecommendationsByUserId`. -/
def getRecommendationsByUserId (db : DB) (userId : Long) : Except Exn (List Long) :=
  match db.existsKey (key .recommendation (toString userId)) with
  | none => .ok []
  | some result => parseRecommendationsString result.parse

/-- `buildJsonToSave`. -/
def buildJsonToSave (currentRecommendations : List Long) : Json :=
  Json.ofMembers (Json.appendedMember "recommendations"
    (currentRecommendations.zipIdx.map fun (recommendation, index) =>
      Json.ofMembers [(Nat.repr index, .ofLong recommendation)]))

/-- What `putKey` leaves of the list of a user. -/
def saveRecommendations (db : DB) (userId : Long) (recommendations : List Long) : DB :=
  db.putKey (key .recommendation (toString userId)) (.json (buildJsonToSave recommendations))

/-- The sum of two `int`s, when it is one. -/
def addInt (left right : Int32) : Except Exn Int32 :=
  let sum := left.toInt + right.toInt
  if -2 ^ 31 ≤ sum ∧ sum < 2 ^ 31 then .ok (Int32.ofInt sum) else .error .undefinedBehaviour

/-- `updateTotalRecommendation`. -/
def updateTotalRecommendation (db : DB) (delta : Int32) (id : Long) : Except Exn Unit × DB :=
  let output := (db.getKey (key .userUuid (toString id))).asText
  let userInformation := db.getKey (key .userMail output)
  match Person.ofJson userInformation.parse with
  | .error e => (.error e, db)
  | .ok person =>
    match addInt person.totRecommendations delta with
    | .error e => (.error e, db)
    | .ok total =>
      let person := { person with totRecommendations := total }
      (.ok (), db.putKey (key .userMail output) (.json person.serializeMe))

/-- `addRecommendation`. -/
def addRecommendation (db : DB) (fromId toId : Long) : Except Exn Unit × DB :=
  match getRecommendationsByUserId db toId with
  | .error e => (.error e, db)
  | .ok currentRecommendations =>
    if fromId ∈ currentRecommendations then (.ok (), db)
    else
      updateTotalRecommendation
        (saveRecommendations db toId (currentRecommendations ++ [fromId])) 1 toId

/-- `removeRecommendation`. -/
def removeRecommendation (db : DB) (fromId toId : Long) : Except Exn Unit × DB :=
  match getRecommendationsByUserId db toId with
  | .error e => (.error e, db)
  | .ok currentRecommendations =>
    if fromId ∈ currentRecommendations then
      updateTotalRecommendation
        (saveRecommendations db toId (currentRecommendations.filter (· ≠ fromId))) (-1) toId
    else (.ok (), db)

/-! ## Outcomes -/

variable {db : DB}

/-- A list of recommendations is written under its own key alone. -/
theorem existsKey_saveRecommendations {other : Text}
    (hother : ∀ rest, other ≠ key .recommendation rest)
    (userId : Long) (recommendations : List Long) :
    (saveRecommendations db userId recommendations).existsKey other = db.existsKey other := by
  rw [saveRecommendations, DB.existsKey_putKey, if_neg (hother _).symm]

/-- The other families are as they were. -/
@[simp] theorem existsKey_key_saveRecommendations {family : Prefix}
    (hfamily : family ≠ .recommendation)
    (rest : Text) (userId : Long) (recommendations : List Long) :
    (saveRecommendations db userId recommendations).existsKey (key family rest)
      = db.existsKey (key family rest) :=
  existsKey_saveRecommendations (by simp [hfamily]) userId recommendations

/-- So is the counter. -/
@[simp] theorem existsKey_lastID_saveRecommendations (userId : Long)
    (recommendations : List Long) :
    (saveRecommendations db userId recommendations).existsKey lastID = db.existsKey lastID :=
  existsKey_saveRecommendations (by simp) userId recommendations

/-- The total of a user who is found is updated in the record of the user, or overflows. -/
theorem updateTotalRecommendation_cases {id : Long} {mail : Text} {user : Person}
    (hid : db.existsKey (key .userUuid (toString id)) = some (.text mail))
    (huser : Manager.getUserByMail db mail = .ok user) (delta : Int32) :
    updateTotalRecommendation db delta id = (.error .undefinedBehaviour, db) ∨
      ∃ total, addInt user.totRecommendations delta = .ok total ∧
        updateTotalRecommendation db delta id
          = (.ok (), db.putKey (key .userMail mail)
              (.json ({ user with totRecommendations := total } : Person).serializeMe)) := by
  have houtput : (db.getKey (key .userUuid (toString id))).asText = mail := by
    rw [DB.getKey, hid]
    rfl
  have hperson : Person.ofJson (db.getKey (key .userMail mail)).parse = .ok user := by
    unfold Manager.getUserByMail at huser
    rw [DB.getKey]
    split at huser
    · cases huser
    · rename_i entry hentry
      rw [hentry]
      exact huser
  unfold updateTotalRecommendation
  simp only [houtput, hperson]
  cases htotal : addInt user.totRecommendations delta with
  | error e =>
      left
      simp only [addInt] at htotal
      split at htotal
      · cases htotal
      · cases htotal
        rfl
  | ok total => exact .inr ⟨total, rfl, rfl⟩

/-- What a recommendation leaves: the store as it was, or the list of the user written and then
the total updated. -/
theorem addRecommendation_cases (db : DB) (fromId toId : Long) :
    (addRecommendation db fromId toId).2 = db ∨
      ∃ recommendations, addRecommendation db fromId toId
        = updateTotalRecommendation (saveRecommendations db toId recommendations) 1 toId := by
  unfold addRecommendation
  split
  · exact .inl rfl
  · split
    · exact .inl rfl
    · exact .inr ⟨_, rfl⟩

/-- A recommendation is taken back or nothing changes. -/
theorem removeRecommendation_cases (db : DB) (fromId toId : Long) :
    (removeRecommendation db fromId toId).2 = db ∨
      ∃ recommendations, removeRecommendation db fromId toId
        = updateTotalRecommendation (saveRecommendations db toId recommendations) (-1) toId := by
  unfold removeRecommendation
  split
  · exact .inl rfl
  · split
    · exact .inr ⟨_, rfl⟩
    · exact .inl rfl

/-! ## The keys that are written -/

/-- A total is written in a profile alone. -/
theorem existsKey_updateTotalRecommendation {other : Text}
    (hrecord : ∀ rest, other ≠ key .userMail rest) (delta : Int32) (id : Long) :
    (updateTotalRecommendation db delta id).2.existsKey other = db.existsKey other := by
  simp only [updateTotalRecommendation]
  split
  · rfl
  · split
    · rfl
    · rw [DB.existsKey_putKey, if_neg (hrecord _).symm]

/-- A recommendation writes lists and profiles alone. -/
theorem existsKey_addRecommendation {other : Text}
    (hlist : ∀ rest, other ≠ key .recommendation rest)
    (hrecord : ∀ rest, other ≠ key .userMail rest) (fromId toId : Long) :
    (addRecommendation db fromId toId).2.existsKey other = db.existsKey other := by
  rcases addRecommendation_cases db fromId toId with hsame | ⟨recommendations, hadd⟩
  · rw [hsame]
  · rw [hadd, existsKey_updateTotalRecommendation hrecord, existsKey_saveRecommendations hlist]

/-- Taking one back writes lists and profiles alone. -/
theorem existsKey_removeRecommendation {other : Text}
    (hlist : ∀ rest, other ≠ key .recommendation rest)
    (hrecord : ∀ rest, other ≠ key .userMail rest) (fromId toId : Long) :
    (removeRecommendation db fromId toId).2.existsKey other = db.existsKey other := by
  rcases removeRecommendation_cases db fromId toId with hsame | ⟨recommendations, hremove⟩
  · rw [hsame]
  · rw [hremove, existsKey_updateTotalRecommendation hrecord, existsKey_saveRecommendations hlist]

end TallerII.RecommendationsManager
