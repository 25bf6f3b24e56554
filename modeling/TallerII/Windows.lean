import TallerII.Delivery

/-!
# Windows of a conversation

`truncateMessages` counts the messages of a window from the newest one and turns the window into
three loops over the conversation, with bounds in 64-bit arithmetic. `truncateMessages_safe_iff`
says when the loops stay within the conversation, `truncateMessages_window` what a window that
begins within it is, and `tiles_iff` when the windows of default width tile it.
-/

namespace TallerII.MessagesHandler

open Handler MessagesManager

variable {messages : List Message} {queryParams : Text} {first last : Int32}

/-- What a `std::vector` can hold: a number of elements up to `PTRDIFF_MAX`. -/
def Fits (messages : List Message) : Prop :=
  messages.length < 2 ^ 63

/-! ## The loops -/

/-- A request goes on to the loops, with its last message clamped to the number of messages. -/
theorem Requests.truncateMessages_eq (h : Requests queryParams first last)
    (messages : List Message) :
    truncateMessages messages queryParams = doTruncate messages first
      (if messages.length < last.toInt then Int32.ofInt messages.length else last) := by
  obtain ⟨firstParam, lastParam, hfirst, hlast, hfirstSign, hlastSign, rfl, hend, hordered⟩ := h
  have hsigns : ¬ (firstParam < 0 ∨ lastParam < 0) :=
    not_or.mpr ⟨Int32.not_lt.mpr hfirstSign, Int32.not_lt.mpr hlastSign⟩
  rw [truncateMessages, hfirst, ok_bind, hlast, ok_bind, check_eq, if_neg hsigns]
  split at hend
  · rename_i hgiven
    cases hend
    rw [if_pos hgiven]
    exact if_neg (Int32.not_lt.mpr hordered)
  · rename_i hdefault
    rw [if_neg hdefault, hend]
    exact if_neg (Int32.not_lt.mpr hordered)

/-- What the three loops do with a window that begins at the latest one message after the oldest.
-/
theorem doTruncate_of_le (hlength : Fits messages) (hfirst : 1 ≤ first.toInt)
    (hordered : first.toInt ≤ last.toInt) (hbegins : first.toInt ≤ messages.length + 1) :
    doTruncate messages first
        (if messages.length < last.toInt then Int32.ofInt messages.length else last)
      = .ok {
          messagesToReturn := newest messages first.toInt.toNat last.toInt.toNat
          deleted := messages.take (messages.length - last.toInt.toNat) ++
            messages.drop (messages.length + 1 - first.toInt.toNat) } := by
  unfold Fits at hlength
  have hbound := toInt_clamped messages last (by omega)
  have hsmall := first.toInt_lt
  generalize hcount : min last.toInt.toNat messages.length = count at hbound
  -- none of the unsigned subtractions wraps around when the window begins in range
  have hto : unsigned (messages.length - first.toInt + 1)
      = messages.length + 1 - first.toInt.toNat := by
    rw [unsigned_of_range (by omega) (by omega)]
    omega
  have hfrom : unsigned (messages.length - count + 1) = messages.length - count + 1 := by
    rw [unsigned_of_range (by omega) (by omega)]
    omega
  have hbefore : unsigned (((messages.length - count + 1 : Nat) : Int) - 1)
      = messages.length - count := by
    rw [unsigned_of_range (by omega) (by omega)]
    omega
  have hafter : unsigned (((messages.length + 1 - first.toInt.toNat : Nat) : Int) + 1)
      = messages.length + 1 - first.toInt.toNat + 1 := by
    rw [unsigned_of_range (by omega) (by omega)]
    omega
  -- the three loops, from the oldest message to the newest one
  have hnewer : visit messages 1 (messages.length - count)
      = .ok (messages.take (messages.length - last.toInt.toNat)) := by
    refine visit_eq_ok.mpr ⟨.inr (by omega), ?_⟩
    rw [List.drop_zero]
    congr 1
    omega
  have hreturned : visit messages (messages.length - count + 1)
      (messages.length + 1 - first.toInt.toNat + 1 - (messages.length - count + 1))
      = .ok (newest messages first.toInt.toNat last.toInt.toNat) := by
    refine visit_eq_ok.mpr ⟨by omega, ?_⟩
    rw [newest, hcount]
    congr 1
    · omega
    · congr 1
      omega
  have holder : visit messages (messages.length + 1 - first.toInt.toNat + 1)
      (messages.length + 1 - (messages.length + 1 - first.toInt.toNat + 1))
      = .ok (messages.drop (messages.length + 1 - first.toInt.toNat)) := by
    refine visit_eq_ok.mpr ⟨by omega, (List.take_of_length_le ?_).symm⟩
    rw [List.length_drop]
    omega
  simp only [doTruncate, hbound, hto, hfrom, hbefore, hafter, hnewer, hreturned, holder, ok_bind]
  rfl

/-- The loops end and every access is within the conversation exactly when the window begins at
the latest one message after the oldest. -/
theorem truncateMessages_safe_iff (hlength : Fits messages)
    (h : Requests queryParams first last) :
    (∃ window, truncateMessages messages queryParams = .ok window) ↔
      first.toInt ≤ messages.length + 1 := by
  obtain ⟨hfirst, hordered⟩ := h.bounds
  rw [h.truncateMessages_eq]
  constructor
  · rintro ⟨window, hwindow⟩
    exact (doTruncate_eq_ok (hlength.trans (by decide)) hfirst hordered hwindow).1
  · intro hbegins
    exact ⟨_, doTruncate_of_le hlength hfirst hordered hbegins⟩

/-- The query of a window. -/
theorem requests_oldest : Requests "user=2&first=2&last=2".toList 2 2 :=
  ⟨2, 2, by decide, by decide, by decide, by decide, rfl, rfl, by decide⟩

/-- The second message of a conversation of one is one after the oldest. -/
theorem truncateMessages_one :
    ∃ window, truncateMessages [sample "10:00"] "user=2&first=2&last=2".toList = .ok window :=
  (truncateMessages_safe_iff (by unfold Fits; decide) requests_oldest).mpr (by decide)

/-- The second message of an empty conversation: the end of the second loop wraps around, and its
first access is already outside. -/
theorem truncateMessages_empty :
    Requests "user=2&first=2&last=2".toList 2 2 ∧
      truncateMessages [] "user=2&first=2&last=2".toList = .error .undefinedBehaviour := by
  refine ⟨requests_oldest, ?_⟩
  rw [requests_oldest.truncateMessages_eq]
  rfl

/-! ## What a window is -/

/-- A window that begins within the conversation returns exactly the messages that it asks for, in
order, and every message before or after them is deleted. -/
theorem truncateMessages_window (hlength : Fits messages) (h : Requests queryParams first last)
    (hbegins : first.toInt ≤ messages.length) :
    ∃ window, truncateMessages messages queryParams = .ok window ∧
      window.messagesToReturn = newest messages first.toInt.toNat last.toInt.toNat ∧
      ∃ before after, messages = before ++ window.messagesToReturn ++ after ∧
        window.deleted = before ++ after ∧
        after.length = first.toInt.toNat - 1 ∧
        window.messagesToReturn.length
          = min last.toInt.toNat messages.length + 1 - first.toInt.toNat := by
  obtain ⟨hfirst, hordered⟩ := h.bounds
  rw [h.truncateMessages_eq]
  refine ⟨_, doTruncate_of_le hlength hfirst hordered (by omega), rfl, _, _, ?_, rfl, ?_, ?_⟩
  · rw [List.append_assoc, newest]
    have hrest : messages.drop (messages.length + 1 - first.toInt.toNat)
        = (messages.drop (messages.length - last.toInt.toNat)).drop
          (min last.toInt.toNat messages.length + 1 - first.toInt.toNat) := by
      rw [List.drop_drop]
      congr 1
      omega
    rw [hrest, List.take_append_drop, List.take_append_drop]
  · rw [List.length_drop]
    omega
  · show (newest messages _ _).length = _
    rw [newest, List.length_take, List.length_drop]
    omega

/-- The newest of two messages. -/
theorem truncateMessages_newest :
    ∃ window, truncateMessages [sample "09:00", sample "10:00"] "user=2&first=1&last=1".toList
        = .ok window ∧ window.messagesToReturn = [sample "10:00"] := by
  have hrequests : Requests "user=2&first=1&last=1".toList 1 1 :=
    ⟨1, 1, by decide, by decide, by decide, by decide, rfl, rfl, by decide⟩
  obtain ⟨window, hwindow, hreturned, -⟩ :=
    @truncateMessages_window [sample "09:00", sample "10:00"] _ _ _ (by unfold Fits; decide)
      hrequests (by decide)
  exact ⟨window, hwindow, hreturned⟩

/-! ## Windows of default width -/

/-- The width that a window has by default. -/
def width : Nat := maxCant.toInt.toNat

/-- The pages of a conversation: the one that begins with the newest message, the one that begins
a width later, and so on while there is a message to begin with. -/
def pages (messages : List Message) : List Nat :=
  (List.range messages.length).takeWhile fun page => 1 + page * width ≤ messages.length

/-- A query that gives only the first message of a page. -/
def GivesFirst (queryParams : Text) (page : Nat) : Prop :=
  ∃ firstParam, getFirstFromQueryParamsIfExists queryParams = .ok firstParam ∧
    firstParam.toInt = 1 + page * width ∧ getLastFromQueryParamsIfExists queryParams = .ok 0

/-- The windows of the pages have at most the default width each, and together every message of
the conversation once. -/
def Tiles (messages : List Message) (queries : Nat → Text) : Prop :=
  ∃ windows : List Window,
    List.Forall₂ (fun page window => truncateMessages messages (queries page) = .ok window)
      (pages messages) windows ∧
    (∀ window ∈ windows, window.messagesToReturn.length ≤ width) ∧
    (windows.flatMap Window.messagesToReturn).Perm messages

/-- The first page goes one message further than the width. -/
theorem GivesFirst.requests (h : GivesFirst queryParams 0) : Requests queryParams 1 11 := by
  obtain ⟨firstParam, hfirst, hvalue, hlast⟩ := h
  obtain rfl : firstParam = 1 := Int32.toInt_inj.mp hvalue
  exact ⟨1, 0, hfirst, hlast, by decide, by decide, rfl, rfl, by decide⟩

/-- A window that is wide enough is all of the conversation. -/
theorem newest_all {last : Nat} (hlast : messages.length ≤ last) :
    newest messages 1 last = messages := by
  rw [newest, Nat.sub_eq_zero_of_le hlast, List.drop_zero, List.take_of_length_le]
  omega

/-- A conversation has a first page, and no other one if it is not longer than the width. -/
theorem pages_eq_cons (hne : messages.length ≠ 0) :
    ∃ others, pages messages = 0 :: others ∧ (messages.length ≤ width → others = []) := by
  have hwidth : width = 10 := by decide
  obtain ⟨count, hcount⟩ := Nat.exists_eq_succ_of_ne_zero hne
  rw [pages, hcount, List.range_succ_eq_map, List.takeWhile_cons_of_pos (by simp)]
  refine ⟨_, rfl, fun hshort => ?_⟩
  cases count with
  | zero => rfl
  | succ count =>
      rw [List.range_succ_eq_map, List.map_cons, List.takeWhile_cons_of_neg]
      simp only [Nat.succ_eq_add_one, decide_eq_true_eq]
      omega

/-- What the window of the first page is. -/
theorem truncateMessages_first (hlength : Fits messages) (h : GivesFirst queryParams 0) :
    ∃ window, truncateMessages messages queryParams = .ok window ∧
      window.messagesToReturn = newest messages 1 11 := by
  have hrequests := h.requests
  have hbegins : (1 : Int32).toInt ≤ messages.length + 1 := by
    show (1 : Int) ≤ messages.length + 1
    omega
  have hwindow :=
    doTruncate_of_le hlength (by decide) (by decide : (1 : Int32).toInt ≤ (11 : Int32).toInt)
    hbegins
  rw [← hrequests.truncateMessages_eq] at hwindow
  exact ⟨_, hwindow, rfl⟩

/-- The windows of default width tile a conversation exactly when the first one is all of it. -/
theorem tiles_iff (hlength : Fits messages) {queries : Nat → Text}
    (hqueries : ∀ page ∈ pages messages, GivesFirst (queries page) page) :
    Tiles messages queries ↔ messages.length ≤ width := by
  have hwidth : width = 10 := by decide
  by_cases hempty : messages.length = 0
  · obtain rfl := List.eq_nil_of_length_eq_zero hempty
    exact iff_of_true ⟨[], List.Forall₂.nil, by simp, List.Perm.refl _⟩ (Nat.zero_le _)
  obtain ⟨others, hpages, honly⟩ := pages_eq_cons hempty
  obtain ⟨window, hwindow, hreturned⟩ := truncateMessages_first hlength
    (hqueries 0 (by rw [hpages]; exact List.mem_cons_self))
  constructor
  · rintro ⟨windows, hanswered, hwide, -⟩
    rw [hpages] at hanswered
    obtain ⟨first, rest, hfirst, -, rfl⟩ := List.forall₂_cons_left_iff.mp hanswered
    obtain rfl : window = first := Except.ok.inj (hwindow.symm.trans hfirst)
    have hlong := hwide window List.mem_cons_self
    rw [hreturned, newest, List.length_take, List.length_drop] at hlong
    omega
  · intro hshort
    refine ⟨[window], ?_, ?_, ?_⟩
    · rw [hpages, honly hshort]
      exact List.Forall₂.cons hwindow List.Forall₂.nil
    · intro other hother
      rw [List.mem_singleton.mp hother, hreturned, newest_all (by omega)]
      exact hshort
    · rw [List.flatMap_singleton, hreturned, newest_all (by omega)]

/-- A conversation that fills its first window. -/
def tenMessages : List Message :=
  ["10:00", "10:01", "10:02", "10:03", "10:04", "10:05", "10:06", "10:07", "10:08", "10:09"].map
    sample

/-- The first window is all of ten messages. -/
theorem tiles_ten : Tiles tenMessages fun _ => "user=2&first=1".toList := by
  have hpages : pages tenMessages = [0] := by decide
  refine (tiles_iff (by unfold Fits; decide) ?_).mpr (by decide)
  intro page hpage
  rw [hpages, List.mem_singleton] at hpage
  subst hpage
  exact ⟨1, by decide, by decide, by decide⟩

/-- The second page begins with the message that the first one ends with. -/
theorem elevenMessages_not_tiled :
    (∀ page ∈ pages (List.replicate 11 (sample "10:00")),
      GivesFirst (if page = 0 then "user=2&first=1".toList else "user=2&first=11".toList) page) ∧
      ¬ Tiles (List.replicate 11 (sample "10:00"))
        fun page => if page = 0 then "user=2&first=1".toList else "user=2&first=11".toList := by
  have hpages : pages (List.replicate 11 (sample "10:00")) = [0, 1] := by decide
  have hfirst : GivesFirst "user=2&first=1".toList 0 := ⟨1, by decide, by decide, by decide⟩
  constructor
  · intro page hpage
    rw [hpages, List.mem_pair] at hpage
    rcases hpage with rfl | rfl
    · exact hfirst
    · exact ⟨11, by decide, by decide, by decide⟩
  · rintro ⟨windows, hanswered, hwide, -⟩
    obtain ⟨window, hwindow, hreturned⟩ := @truncateMessages_first
      (List.replicate 11 (sample "10:00")) _ (by unfold Fits; decide) hfirst
    rw [hpages] at hanswered
    obtain ⟨other, rest, hother, -, rfl⟩ := List.forall₂_cons_left_iff.mp hanswered
    obtain rfl : window = other := Except.ok.inj (hwindow.symm.trans hother)
    have hlong := hwide window List.mem_cons_self
    rw [hreturned] at hlong
    exact absurd hlong (by decide)

end TallerII.MessagesHandler
