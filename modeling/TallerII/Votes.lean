import TallerII.Effects
import TallerII.Identity
import TallerII.Lib.Ballot

/-!
# Recommendations as votes

The list of the users who recommend a user, and the total in the profile of the user, follow the
votes that were cast: `Tallies` is the joint invariant of lists, totals and ids. A user starts
with no votes because its id is new.
-/

namespace TallerII

open Lib Lib.Ballot Manager PersonManager

namespace RecommendationsManager

variable {db next : DB}

/-- A list of recommendations is read back. -/
theorem parseRecommendationsString_buildJsonToSave (recommendations : List Long) :
    parseRecommendationsString (buildJsonToSave recommendations) = .ok recommendations := by
  have hread : ∀ (items : List Long) (start : Nat),
      (((items.zipIdx start).map fun item =>
        Json.ofMembers [(Nat.repr item.2, Json.ofLong item.1)]).zipIdx start).mapM
          (fun item => do
            (← item.1.member (Nat.repr item.2)).asLargestInt) = Except.ok (ε := Exn) items := by
    intro items
    induction items with
    | nil =>
        intro start
        rfl
    | cons first items ih =>
        intro start
        simp [ih, Json.assigned]
  have helements : (buildJsonToSave recommendations).member "recommendations" >>= Json.elements
      = .ok (recommendations.zipIdx.map fun item =>
          Json.ofMembers [(Nat.repr item.2, Json.ofLong item.1)]) := by
    cases recommendations with
    | nil => rfl
    | cons first recommendations =>
        simp [buildJsonToSave, Json.assigned_appendedMember, Json.elements]
  obtain ⟨list, hmember, hlist⟩ := bind_eq_ok.mp helements
  unfold parseRecommendationsString
  rw [hmember, ok_bind, hlist, ok_bind]
  exact hread recommendations 0

/-- A saved list is read under its user, and the other lists are as they were. -/
theorem getRecommendationsByUserId_saveRecommendations (userId : Long)
    (recommendations : List Long)
    (other : Long) :
    getRecommendationsByUserId (saveRecommendations db userId recommendations) other
      = if userId = other then .ok recommendations else getRecommendationsByUserId db other := by
  unfold getRecommendationsByUserId saveRecommendations
  rw [DB.existsKey_putKey]
  by_cases hsame : userId = other
  · simp [hsame, Entry.parse, parseRecommendationsString_buildJsonToSave]
  · simp [hsame]

/-- The recommendations of a user depend on the list alone. -/
theorem getRecommendationsByUserId_congr {userId : Long}
    (h : next.existsKey (key .recommendation (toString userId))
      = db.existsKey (key .recommendation (toString userId))) :
    getRecommendationsByUserId next userId = getRecommendationsByUserId db userId := by
  unfold getRecommendationsByUserId
  rw [h]

/-! ## One vote -/

/-- What a vote leaves: the list of its target with the vote applied, and the total of the target
changed by as much as the length of the list. -/
structure Voted (db : DB) (vote : Vote Long) (user : Person) (next : DB) : Prop where
  lists : ∀ userId list, getRecommendationsByUserId db userId = .ok list →
    getRecommendationsByUserId next userId
      = .ok (if vote.target = userId then vote.apply list else list)
  records : ∀ list, getRecommendationsByUserId db vote.target = .ok list →
    ∃ total : Int32, total.toInt - user.totRecommendations.toInt
        = ((vote.apply list).length : Int) - list.length ∧
      ∀ mail, getUserByMail next mail
        = if user.email = mail then .ok { user with totRecommendations := total }
          else getUserByMail db mail

/-- A vote that changes no list leaves the store as it is. -/
theorem Voted.same {vote : Vote Long} {user : Person} {list : List Long}
    (hlist : getRecommendationsByUserId db vote.target = .ok list)
    (hvote : vote.apply list = list)
    (huser : getUserByMail db user.email = .ok user) : Voted db vote user db := by
  refine ⟨?_, ?_⟩
  · intro userId other hother
    split
    · rename_i hsame
      rw [← hsame, hlist] at hother
      cases hother
      rw [hvote, ← hsame, hlist]
    · exact hother
  · intro other hother
    rw [hlist] at hother
    cases hother
    refine ⟨user.totRecommendations, by rw [hvote]; omega, ?_⟩
    intro mail
    split
    · rename_i hmail
      rw [← hmail, huser]
    · rfl

/-- A sum that is an `int` is the sum of the integers. -/
theorem toInt_addInt {left right sum : Int32} (h : addInt left right = .ok sum) :
    sum.toInt = left.toInt + right.toInt := by
  simp only [addInt] at h
  split at h
  · rename_i hrange
    cases h
    exact Int32.toInt_ofInt_of_le hrange.1 hrange.2
  · cases h

/-- Updating a total after its list was saved. -/
theorem Voted.of_updateTotal {vote : Vote Long} {user : Person} {list : List Long} {delta : Int32}
    (hlist : getRecommendationsByUserId db vote.target = .ok list)
    (hid : db.existsKey (key .userUuid (toString vote.target)) = some (.text user.email))
    (huser : getUserByMail db user.email = .ok user) (hnormalized : user.Normalized)
    (hdelta : delta.toInt = ((vote.apply list).length : Int) - list.length)
    (hupdate :
      updateTotalRecommendation (saveRecommendations db vote.target (vote.apply list)) delta
      vote.target = (.ok (), next)) : Voted db vote user next := by
  have hsame := fun {family : Prefix} (hfamily : family ≠ .recommendation) rest =>
    @existsKey_key_saveRecommendations db family hfamily rest vote.target (vote.apply list)
  have hid' := (hsame (by decide) (toString vote.target)).trans hid
  have huser' := (getUserByMail_congr (hsame (by decide) user.email)).trans huser
  -- the total overflows, which does not return, or becomes the length of the new list
  rcases updateTotalRecommendation_cases hid' huser' delta with hover | ⟨total, htotal, hok⟩
  · rw [hover] at hupdate
    cases hupdate
  · rw [hok] at hupdate
    cases hupdate
    refine ⟨?_, ?_⟩
    · intro userId other hother
      have hframe : getRecommendationsByUserId (DB.putKey
          (saveRecommendations db vote.target (vote.apply list)) (key .userMail user.email)
          (.json ({ user with totRecommendations := total } : Person).serializeMe)) userId
          = getRecommendationsByUserId
              (saveRecommendations db vote.target (vote.apply list)) userId := by
        refine getRecommendationsByUserId_congr ?_
        rw [DB.existsKey_putKey, if_neg (by simp)]
      rw [hframe, getRecommendationsByUserId_saveRecommendations]
      by_cases htarget : vote.target = userId
      · rw [← htarget, hlist] at hother
        cases hother
        rw [if_pos htarget, if_pos htarget]
      · rw [if_neg htarget, if_neg htarget, hother]
    · intro other hother
      rw [hlist] at hother
      cases hother
      refine ⟨total, by rw [toInt_addInt htotal, hdelta]; omega, ?_⟩
      refine getUserByMail_of_saved (normalized_rated hnormalized total) ?_
      intro mail
      rw [DB.existsKey_putKey, hsame (by decide)]
      simp

/-- A recommendation is a vote. -/
theorem voted_addRecommendation {fromId toId : Long} {user : Person} {list : List Long}
    (hlist : getRecommendationsByUserId db toId = .ok list)
    (hid : db.existsKey (key .userUuid (toString toId)) = some (.text user.email))
    (huser : getUserByMail db user.email = .ok user) (hnormalized : user.Normalized)
    (hadd : addRecommendation db fromId toId = (.ok (), next)) :
    Voted db ⟨fromId, toId, true⟩ user next := by
  simp only [addRecommendation, hlist] at hadd
  split at hadd
  · rename_i hmem
    cases hadd
    exact .same hlist (by simp [Vote.apply, hmem]) huser
  · rename_i hnew
    have hvote : (⟨fromId, toId, true⟩ : Vote Long).apply list = list ++ [fromId] := by
      simp [Vote.apply, hnew]
    rw [← hvote] at hadd
    refine .of_updateTotal hlist hid huser hnormalized ?_ hadd
    rw [hvote, List.length_append, List.length_singleton, show (1 : Int32).toInt
      = 1 from by decide]
    omega

/-- The list has no repetitions, so one recommendation less leaves the list shorter by one. -/
theorem voted_removeRecommendation {fromId toId : Long} {user : Person} {list : List Long}
    (hlist : getRecommendationsByUserId db toId = .ok list) (hnodup : list.Nodup)
    (hid : db.existsKey (key .userUuid (toString toId)) = some (.text user.email))
    (huser : getUserByMail db user.email = .ok user) (hnormalized : user.Normalized)
    (hremove : removeRecommendation db fromId toId = (.ok (), next)) :
    Voted db ⟨fromId, toId, false⟩ user next := by
  have hvote : (⟨fromId, toId, false⟩ : Vote Long).apply list = list.filter (· ≠ fromId) := rfl
  simp only [removeRecommendation, hlist] at hremove
  split at hremove
  · rename_i hmem
    refine .of_updateTotal hlist hid huser hnormalized ?_ hremove
    have hlength : (list.filter (· ≠ fromId)).length = list.length - 1 := by
      have herase : list.filter (· ≠ fromId) = list.erase fromId := by
        rw [hnodup.erase_eq_filter]
        refine List.filter_congr fun voter _ => ?_
        by_cases hsame : voter = fromId <;> simp [hsame]
      rw [herase, List.length_erase_of_mem hmem]
    have hpos : 0 < list.length := List.length_pos_of_mem hmem
    rw [hvote, hlength, show (-1 : Int32).toInt = -1 from by decide]
    omega
  · rename_i habsent
    cases hremove
    refine .same hlist ?_ huser
    rw [hvote, List.filter_eq_self]
    intro voter hvoter
    have hne : voter ≠ fromId := fun hsame => habsent (hsame ▸ hvoter)
    exact decide_eq_true hne

end RecommendationsManager

namespace PersonManager

open RecommendationsManager

variable {db next : DB}

/-! ## The votes of a run -/

/-- The vote that a call casts. -/
def voteOf : Call → Option (Vote Long)
  | .saveRecommendation recommendation =>
    let users : Except Exn (Vote Long) := do
      let fromUserId ← (← recommendation.member "from").asLargestInt
      let toUserId ← (← recommendation.member "to").asLargestInt
      return { voter := fromUserId, target := toUserId, adds := true }
    users.toOption
  | .removeRecommendation fromUserId toUserId =>
    some { voter := fromUserId, target := toUserId, adds := false }
  | _ => none

/-- The votes that calls cast. -/
def votesOf (calls : List Call) : List (Vote Long) :=
  calls.filterMap voteOf

/-- A call of an account operation that returns. -/
def Casts (db : DB) (call : Call) (next : DB) : Prop :=
  IsAccountCall call ∧ Returns db call next

/-- The users of a request that is valid cast a vote. -/
theorem voteOf_of_usersOfRequest {recommendation : Json} {fromUserId toUserId : Long}
    (h : usersOfRequest db recommendation = .ok (fromUserId, toUserId)) :
    voteOf (.saveRecommendation recommendation)
        = some { voter := fromUserId, target := toUserId, adds := true } ∧
      validateUsersOfRequest db fromUserId toUserId = .ok () := by
  simp only [usersOfRequest, bind_eq_ok] at h
  obtain ⟨fromJson, hfrom, source, hsource, toJson, hto, target, htarget, _, hchecked, hpair⟩ := h
  cases hpair
  refine ⟨?_, hchecked⟩
  simp only [voteOf, hfrom, ok_bind, hsource, hto, htarget]
  rfl

/-- A recommendation that returns is one of a valid request. -/
theorem exists_usersOfRequest {recommendation : Json}
    (hreturns : Returns db (.saveRecommendation recommendation) next) :
    ∃ fromUserId toUserId, usersOfRequest db recommendation = .ok (fromUserId, toUserId) ∧
      addRecommendation db fromUserId toUserId = (.ok (), next) := by
  obtain ⟨result, hexec⟩ := hreturns
  obtain ⟨_, hsave, -⟩ := outcome_eq_ok.mp hexec
  simp only [saveRecommendation] at hsave
  cases hrequest : usersOfRequest db recommendation with
  | error e =>
      rw [hrequest] at hsave
      cases hsave
  | ok users =>
      rw [hrequest] at hsave
      exact ⟨users.1, users.2, rfl, hsave⟩

/-- A vote that is cast is between two different users, and is applied. -/
theorem voted_of_cast (h : Consistent db) {call : Call} {vote : Vote Long} {list : List Long}
    (hvote : voteOf call = some vote)
    (hlist : getRecommendationsByUserId db vote.target = .ok list)
    (hnodup : list.Nodup) (hreturns : Returns db call next) :
    (userExists db vote.voter ∧ vote.voter ≠ vote.target) ∧
      ∃ user, getUserById db vote.target = .ok user ∧ Voted db vote user next := by
  -- both calls check the two users first
  have hvalid : ∀ {fromUserId toUserId : Long},
      validateUsersOfRequest db fromUserId toUserId = .ok () →
      (userExists db fromUserId ∧ fromUserId ≠ toUserId) ∧
        ∃ user, getUserById db toUserId = .ok user ∧
          db.existsKey (key .userUuid (toString toUserId)) = some (.text user.email) ∧
          getUserByMail db user.email = .ok user ∧ user.Normalized := by
    intro fromUserId toUserId hvalid
    obtain ⟨hfrom, hto, hne⟩ := validateUsersOfRequest_eq_ok.mp hvalid
    obtain ⟨user, huser⟩ := h.getUserById_of_userExists hto
    obtain ⟨hid, hread, -⟩ := h.getUserById_eq_ok.mp huser
    exact ⟨⟨hfrom, hne⟩, user, huser, hid, hread, (h.getUserByMail_eq_ok.mp hread).2.2⟩
  cases call with
  | saveRecommendation recommendation =>
      obtain ⟨fromUserId, toUserId, hrequest, hsave⟩ := exists_usersOfRequest hreturns
      obtain ⟨hcast, hchecked⟩ := voteOf_of_usersOfRequest hrequest
      rw [hcast] at hvote
      cases hvote
      obtain ⟨hne, user, huser, hid, hread, hnormalized⟩ := hvalid hchecked
      exact ⟨hne, user, huser, voted_addRecommendation hlist hid hread hnormalized hsave⟩
  | removeRecommendation fromUserId toUserId =>
      cases hvote
      obtain ⟨result, hexec⟩ := hreturns
      obtain ⟨_, hremove, -⟩ := outcome_eq_ok.mp hexec
      simp only [removeRecommendation] at hremove
      cases hchecked : validateUsersOfRequest db fromUserId toUserId with
      | error e =>
          rw [hchecked] at hremove
          cases hremove
      | ok _ =>
          rw [hchecked] at hremove
          obtain ⟨hne, user, huser, hid, hread, hnormalized⟩ := hvalid hchecked
          exact ⟨hne, user, huser,
            voted_removeRecommendation hlist hnodup hid hread hnormalized hremove⟩
  | savePerson juser forceID => cases hvote
  | updateUser juser => cases hvote
  | deletePerson id => cases hvote
  | saveOrUpdateRelation relation => cases hvote
  | saveMessage now request => cases hvote
  | setMessagesAsReceived fromUserId toUserId deliveredMessages => cases hvote
  | setOrUpdateNotificationToken request userId => cases hvote

/-- The lists and the totals of all users are the ones that the votes lead to. -/
structure Tallies (votes : List (Vote Long)) (db : DB) : Prop where
  accounts : Accounts db
  lists : ∀ userId, getRecommendationsByUserId db userId = .ok (standing userId votes)
  counted : ∀ vote ∈ votes, Counted db vote.target
  apart : ∀ vote ∈ votes, vote.voter ≠ vote.target
  totals : ∀ mail user, getUserByMail db mail = .ok user →
    user.totRecommendations.toInt = (standing user.id votes).length

/-- Nobody voted yet. -/
theorem tallies_empty : Tallies [] ∅ := by
  refine ⟨Accounts.empty, ?_, by simp, by simp, ?_⟩
  · intro userId
    rw [getRecommendationsByUserId, DB.existsKey_empty, standing_nil]
  · intro mail user hread
    rw [getUserByMail, DB.existsKey_empty] at hread
    cases hread

/-- A call that returns without a vote is one on an account. -/
theorem onAccount_of_none {call : Call} (hcall : IsAccountCall call)
    (hreturns : Returns db call next) (hvote : voteOf call = none) : call.OnAccount := by
  cases call with
  | savePerson juser forceID => trivial
  | updateUser juser => trivial
  | deletePerson id => trivial
  | removeRecommendation fromUserId toUserId => cases hvote
  | saveRecommendation recommendation =>
      obtain ⟨_, _, hrequest, -⟩ := exists_usersOfRequest hreturns
      rw [(voteOf_of_usersOfRequest hrequest).1] at hvote
      cases hvote
  | _ => exact absurd hcall id

/-- Registering, updating and deleting a user keeps the tallies: a new user has a new id, for
which nobody voted. -/
theorem Tallies.of_onAccount {votes : List (Vote Long)} (h : Tallies votes db) {call : Call}
    (hon : call.OnAccount) (hcall : IsAccountCall call) (hreturns : Returns db call next) :
    Tallies votes next := by
  obtain ⟨result, hexec⟩ := hreturns
  obtain ⟨hnext, hkept, hnew⟩ := h.accounts.returned hcall hexec
  have heffect : Effect db call (.ok result) next := by
    have heffect := effect_exec h.accounts.consistent call
    rwa [hexec] at heffect
  refine ⟨hnext, ?_, fun vote hvote => hkept _ (h.counted vote hvote), h.apart, ?_⟩
  · intro userId
    rw [getRecommendationsByUserId_congr, h.lists]
    have hsame := @existsKey_exec_of_onAccount db call hon _
      (apart_key (.inr (.inr (.inl rfl))) (toString userId))
    rwa [hexec] at hsame
  · intro mail user hread
    rcases heffect.read_of_onAccount h.accounts.consistent hon hread with
      ⟨old, hold, hid, htotal⟩ | ⟨hresult, htotal, juser, forceID, rfl⟩
    · rw [← htotal, ← hid]
      exact h.totals mail old hold
    · subst hresult
      obtain ⟨-, hfresh⟩ := hnew user.id rfl
      have hnone : standing user.id votes = [] := by
        refine standing_of_none fun vote hvote hsame => ?_
        have hlt := hfresh _ (h.counted vote hvote)
        rw [hsame] at hlt
        exact lt_irrefl _ hlt
      rw [htotal, hnone]
      decide

/-- What leaves users and recommendations alone keeps the tallies. -/
theorem Tallies.frame {votes : List (Vote Long)} (h : Tallies votes db) (hnext : Consistent next)
    (hkey : ∀ family rest, Prefix.OfUser family ∨ family = .recommendation →
      next.existsKey (key family rest) = db.existsKey (key family rest))
    (hcounter : next.existsKey lastID = db.existsKey lastID) : Tallies votes next := by
  refine ⟨h.accounts.congr hnext (fun family rest hfamily => hkey family rest (.inl hfamily))
    hcounter, ?_, fun vote hvote => (h.counted vote hvote).congr hcounter, h.apart, ?_⟩
  · intro userId
    rw [getRecommendationsByUserId_congr (hkey _ _ (.inr rfl)), h.lists]
  · intro mail user hread
    rw [getUserByMail_congr (hkey _ _ (.inl (.inl rfl)))] at hread
    exact h.totals mail user hread

/-- A vote is tallied. -/
theorem Tallies.cast {votes : List (Vote Long)} (h : Tallies votes db) {call : Call}
    {vote : Vote Long} (hvote : voteOf call = some vote) (hcall : IsAccountCall call)
    (hreturns : Returns db call next) : Tallies (votes ++ [vote]) next := by
  obtain ⟨⟨-, hapart⟩, target, htarget, hvoted⟩ := voted_of_cast h.accounts.consistent hvote
    (h.lists vote.target) (nodup_standing _ _) hreturns
  obtain ⟨total, hdiff, hrecords⟩ := hvoted.records _ (h.lists vote.target)
  obtain ⟨result, hexec⟩ := hreturns
  obtain ⟨hnext, hkept, -⟩ := h.accounts.returned hcall hexec
  obtain ⟨hmail, hread, hid⟩ := h.accounts.consistent.getUserById_eq_ok.mp htarget
  refine ⟨hnext, ?_, ?_, ?_, ?_⟩
  · intro userId
    rw [hvoted.lists userId _ (h.lists userId), standing_append_singleton]
  · intro other hother
    rcases List.mem_append.mp hother with hbefore | hlast
    · exact hkept _ (h.counted other hbefore)
    · rw [List.mem_singleton.mp hlast, ← hid]
      exact hkept _ (h.accounts.counted _ _ hread)
  · intro other hother
    rcases List.mem_append.mp hother with hbefore | hlast
    · exact h.apart other hbefore
    · rw [List.mem_singleton.mp hlast]
      exact hapart
  · intro mail user huser
    rw [hrecords mail] at huser
    have htotal := h.totals _ _ hread
    rw [standing_append_singleton]
    split at huser
    · cases huser
      rw [hid] at htotal
      rw [show ({ target with totRecommendations := total } : Person).id = vote.target from hid,
        if_pos rfl]
      show total.toInt = _
      omega
    · rename_i hne
      -- another record has another id, for which this vote does not count
      have hother : vote.target ≠ user.id := by
        intro hsame
        have hlisted := h.accounts.listed mail user huser
        rw [← hsame, hmail] at hlisted
        exact hne (Entry.text.inj (Option.some.inj hlisted))
      rw [if_neg hother]
      exact h.totals mail user huser

/-- Along every run the lists and totals are those of the votes. -/
theorem tallies_of_run {calls : List Call} (h : Run Casts ∅ calls db) :
    Tallies (votesOf calls) db := by
  refine @Run.history DB Call Casts ∅ _ _ (fun calls db => Tallies (votesOf calls) db)
    tallies_empty ?_ h
  rintro calls state call next htallies ⟨hcall, hreturns⟩
  rw [votesOf, List.filterMap_append]
  cases hvote : voteOf call with
  | some vote =>
      rw [List.filterMap_cons_some hvote]
      exact htallies.cast hvote hcall hreturns
  | none =>
      rw [List.filterMap_cons_none hvote, List.filterMap_nil, List.append_nil]
      exact htallies.of_onAccount (onAccount_of_none hcall hreturns hvote) hcall hreturns

/-- The recommendations of an existing user are the users whose last vote was an addition, each
once and never the user itself, in the order of their first additions since they last stood out;
and the total of the user is their number. -/
theorem recommendations_standing {calls : List Call} (h : Run Casts ∅ calls db) {userId : Long}
    (hexists : userExists db userId) :
    ∃ (list : List Long) (user : Person), getRecommendationsByUserId db userId = .ok list ∧
      getUserById db userId = .ok user ∧
      (∀ voter, voter ∈ list ↔ ∃ vote,
        lastThat (about voter userId) (votesOf calls) = some vote ∧ vote.adds = true) ∧
      list.Nodup ∧ userId ∉ list ∧ list = (lasting userId (votesOf calls)).eraseDups ∧
      user.totRecommendations.toInt = list.length := by
  have htallies := tallies_of_run h
  obtain ⟨user, huser⟩ := htallies.accounts.consistent.getUserById_of_userExists hexists
  obtain ⟨-, hread, hid⟩ := htallies.accounts.consistent.getUserById_eq_ok.mp huser
  refine ⟨standing userId (votesOf calls), user, htallies.lists userId, huser,
    fun voter => mem_standing, nodup_standing _ _, ?_, standing_eq _ _, ?_⟩
  · intro hself
    obtain ⟨vote, hlast, -⟩ := mem_standing.mp hself
    obtain ⟨habout, before, after, hvotes, -⟩ := lastThat_eq_some.mp hlast
    have hmem : vote ∈ votesOf calls := by
      rw [hvotes]
      exact List.mem_append_right _ List.mem_cons_self
    obtain ⟨hvoter, htarget⟩ := of_decide_eq_true habout
    exact htallies.apart vote hmem (hvoter.trans htarget.symm)
  · rw [← hid]
    exact htallies.totals _ _ hread

/-- The request of a vote. -/
def recommends (fromUserId toUserId : Long) : Call :=
  .saveRecommendation (Json.ofMembers [("from", .ofLong fromUserId), ("to", .ofLong toUserId)])

/-- Three users register. -/
def threeUsers : List Call :=
  [['a'], ['b'], ['c']].map fun mail => .savePerson (Person.sample mail [] []).serializeMe (-1)

/-- Calls of a kind that return one after another are a run of such calls. -/
theorem run_returning {kind : Call → Prop} {calls : List Call}
    (hcalls : ∀ call ∈ calls, kind call)
    (hreturn : ∀ answered ∈ answersFrom ∅ calls, answered.2.isOk = true) :
    Run (fun db call next => kind call ∧ Returns db call next) ∅ calls (execAll calls) := by
  induction calls using List.reverseRecOn with
  | nil => exact .nil
  | append_singleton calls call ih =>
      rw [answersFrom_append] at hreturn
      have hbefore := ih (fun other hother => hcalls other (List.mem_append_left _ hother))
        (fun other hother => hreturn other (List.mem_append_left _ hother))
      have hlast := hreturn _ (List.mem_append_right _ (List.mem_singleton_self _))
      refine hbefore.snoc ⟨hcalls call (by simp), ?_⟩
      cases hexec : (exec (execAll calls) call).1 with
      | ok result => exact ⟨result, exec_execAll calls hexec⟩
      | error e =>
          rw [show List.foldl (fun db call => (exec db call).2) ∅ calls = execAll calls from rfl,
            hexec] at hlast
          cases hlast

/-- Two users recommend a third one, and then the first of them does so again. -/
def repeatedRecommendation : List Call :=
  threeUsers ++ [recommends 1 3, recommends 2 3, recommends 1 3]

/-- The calls are a run. -/
theorem run_repeatedRecommendation :
    Run Casts ∅ repeatedRecommendation (execAll repeatedRecommendation) := by
  refine run_returning ?_ (by decide)
  simp [repeatedRecommendation, threeUsers, recommends, IsAccountCall]

/-- The user who was last added stands first: a repeated recommendation does not move a user. The
order of the last additions is the other one. -/
theorem repeated_recommendation_keeps_place :
    Run Casts ∅ repeatedRecommendation (execAll repeatedRecommendation) ∧
      getRecommendationsByUserId (execAll repeatedRecommendation) 3 = .ok [1, 2] ∧
      (lasting 3 (votesOf repeatedRecommendation)).dedup = [2, 1] :=
  ⟨run_repeatedRecommendation, by decide, by decide⟩

/-- Both users recommend the third one. -/
theorem recommendations_standing_repeated :
    ∃ (list : List Long) (user : Person),
      getRecommendationsByUserId (execAll repeatedRecommendation) 3 = .ok list ∧
      getUserById (execAll repeatedRecommendation) 3 = .ok user ∧
      user.totRecommendations.toInt = list.length := by
  obtain ⟨list, user, hlist, huser, -, -, -, -, htotal⟩ :=
    recommendations_standing run_repeatedRecommendation
      (show userExists (execAll repeatedRecommendation) 3 = true from by decide)
  exact ⟨list, user, hlist, huser, htotal⟩

end PersonManager

end TallerII
