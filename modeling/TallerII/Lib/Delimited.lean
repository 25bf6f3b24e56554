import Mathlib

/-!
# Delimiter-separated lists

A list of pieces kept as one sequence, with a delimiter between two pieces. `getlines` reads the
pieces back the way a line reader does: each piece ends at the next delimiter or at the end of the
input, and an empty piece after the last delimiter is not reported. `encode` writes a list of
pieces. The two are inverse on pieces that are non-empty and free of the delimiter.
`removePiece` rewrites a sequence without the pieces that equal a given one.
-/

namespace TallerII.Lib.Delimited

universe u

variable {α : Type u} [DecidableEq α] (delim : α)

/-- The pieces of a sequence, read one after another up to the next delimiter. -/
def getlines : List α → List (List α)
  | [] => []
  | c :: rest =>
    if c = delim then [] :: getlines rest
    else match getlines rest with
      | [] => [[c]]
      | piece :: pieces => (c :: piece) :: pieces

/-- The pieces in order, with one delimiter between two of them. -/
def encode (pieces : List (List α)) : List α :=
  [delim].intercalate pieces

/-- A piece that survives being written and read: not empty, and without the delimiter. -/
def Plain (piece : List α) : Prop :=
  piece ≠ [] ∧ delim ∉ piece

/-- Whether a piece is plain can be computed. -/
instance (piece : List α) : Decidable (Plain delim piece) :=
  inferInstanceAs (Decidable (_ ∧ _))

/-- Add a piece behind a sequence. A sequence that is still empty gets no delimiter. -/
def appendPiece (acc piece : List α) : List α :=
  if acc = [] then piece else acc ++ delim :: piece

/-- The sequence rebuilt from the pieces that differ from `target`. -/
def removePiece (target sequence : List α) : List α :=
  ((getlines delim sequence).filter (· ≠ target)).foldl (appendPiece delim) []

variable {delim}

/-! ## Reading -/

/-- Nothing has no lines. -/
@[simp] theorem getlines_nil : getlines delim [] = [] := rfl

/-- A delimiter in front ends an empty line. -/
theorem getlines_cons_delim (rest : List α) :
    getlines delim (delim :: rest) = [] :: getlines delim rest := by
  simp [getlines]

/-- Only the empty sequence has no lines. -/
theorem getlines_eq_nil {sequence : List α} : getlines delim sequence = [] ↔ sequence = [] := by
  cases sequence with
  | nil => simp
  | cons c rest =>
      simp only [getlines]
      split
      · simp
      · split <;> simp

/-- No piece contains the delimiter. -/
theorem delim_not_mem {sequence piece : List α} (h : piece ∈ getlines delim sequence) :
    delim ∉ piece := by
  induction sequence generalizing piece with
  | nil => simp at h
  | cons c rest ih =>
      simp only [getlines] at h
      split at h
      · rcases List.mem_cons.mp h with rfl | hrest
        · simp
        · exact ih hrest
      · rename_i hc
        split at h
        · rw [List.mem_singleton.mp h]
          simpa using fun hd : delim = c => hc hd.symm
        · rename_i first others hrest
          rcases List.mem_cons.mp h with rfl | hother
          · have hfirst : delim ∉ first := ih (by simp [hrest])
            simp only [List.mem_cons, not_or]
            exact ⟨fun hd => hc hd.symm, hfirst⟩
          · exact ih (by simp [hrest, hother])

/-- Reading invents nothing. -/
theorem mem_of_mem_getlines {sequence piece : List α} {c : α}
    (hpiece : piece ∈ getlines delim sequence)
    (hc : c ∈ piece) : c ∈ sequence := by
  induction sequence generalizing piece with
  | nil => simp at hpiece
  | cons first rest ih =>
      by_cases hfirst : first = delim
      · rw [hfirst, getlines_cons_delim, List.mem_cons] at hpiece
        rcases hpiece with rfl | hpiece
        · simp at hc
        · exact List.mem_cons_of_mem _ (ih hpiece hc)
      · cases hpieces : getlines delim rest with
        | nil =>
            simp only [getlines, if_neg hfirst, hpieces, List.mem_singleton] at hpiece
            subst hpiece
            exact List.mem_cons.mpr (.inl (List.mem_singleton.mp hc))
        | cons second others =>
            simp only [getlines, if_neg hfirst, hpieces, List.mem_cons] at hpiece
            rcases hpiece with rfl | hpiece
            · rcases List.mem_cons.mp hc with rfl | hc
              · exact List.mem_cons_self
              · refine List.mem_cons_of_mem _ (ih ?_ hc)
                rw [hpieces]
                exact List.mem_cons_self
            · refine List.mem_cons_of_mem _ (ih ?_ hc)
              rw [hpieces]
              exact List.mem_cons_of_mem _ hpiece

/-- A delimiter-free start ends at the delimiter that follows it. -/
theorem getlines_append_delim {piece : List α} (h : delim ∉ piece) (rest : List α) :
    getlines delim (piece ++ delim :: rest) = piece :: getlines delim rest := by
  induction piece with
  | nil => exact getlines_cons_delim rest
  | cons c piece ih =>
      simp only [List.mem_cons, not_or] at h
      have hc : ¬ c = delim := fun hd => h.1 hd.symm
      simp only [List.cons_append, getlines, if_neg hc, ih h.2]

/-- The pieces of a sequence remain when more follows behind a delimiter. -/
theorem getlines_prefix_append (sequence rest : List α) :
    getlines delim sequence <+: getlines delim (sequence ++ delim :: rest) := by
  induction sequence with
  | nil => exact List.nil_prefix
  | cons c sequence ih =>
      by_cases hc : c = delim
      · subst hc
        rw [List.cons_append, getlines_cons_delim, getlines_cons_delim]
        exact List.cons_prefix_cons.mpr ⟨rfl, ih⟩
      · simp only [List.cons_append, getlines, if_neg hc]
        cases hpieces : getlines delim sequence with
        | nil =>
            rw [getlines_eq_nil.mp hpieces, List.nil_append, getlines_cons_delim]
            exact List.cons_prefix_cons.mpr ⟨rfl, List.nil_prefix⟩
        | cons first others =>
            rw [hpieces] at ih
            obtain ⟨more, hmore⟩ := ih
            rw [← hmore]
            exact List.cons_prefix_cons.mpr ⟨rfl, List.prefix_append _ _⟩

/-- A plain piece is one line. -/
theorem getlines_single {piece : List α} (h : Plain delim piece) :
    getlines delim piece = [piece] := by
  obtain ⟨hne, hfree⟩ := h
  induction piece with
  | nil => exact absurd rfl hne
  | cons c piece ih =>
      simp only [List.mem_cons, not_or] at hfree
      have hc : ¬ c = delim := fun hd => hfree.1 hd.symm
      cases piece with
      | nil => simp [getlines, hc]
      | cons c' piece =>
          rw [getlines, if_neg hc, ih (by simp) hfree.2]

/-! ## Writing -/

omit [DecidableEq α] in
/-- No pieces make the empty sequence. -/
@[simp] theorem encode_nil : encode delim ([] : List (List α)) = [] := rfl

omit [DecidableEq α] in
/-- One piece needs no delimiter. -/
@[simp] theorem encode_singleton (piece : List α) : encode delim [piece] = piece := by
  simp [encode]

omit [DecidableEq α] in
/-- Between two pieces stands a delimiter. -/
theorem encode_cons_cons (first second : List α) (pieces : List (List α)) :
    encode delim (first :: second :: pieces)
      = first ++ delim :: encode delim (second :: pieces) := by
  simp [encode, List.intercalate_cons_cons]

omit [DecidableEq α] in
/-- A further piece goes behind a delimiter. -/
theorem encode_concat {pieces : List (List α)} (h : pieces ≠ []) (piece : List α) :
    encode delim (pieces ++ [piece]) = encode delim pieces ++ delim :: piece := by
  induction pieces with
  | nil => exact absurd rfl h
  | cons first rest ih =>
      cases rest with
      | nil => simp [encode_cons_cons]
      | cons second rest =>
          simp only [List.cons_append, encode_cons_cons]
          rw [← List.cons_append, ih (by simp)]
          simp

omit [DecidableEq α] in
/-- What is written comes from the pieces, or is the delimiter. -/
theorem mem_encode {pieces : List (List α)} {c : α} (h : c ∈ encode delim pieces) :
    c = delim ∨ ∃ piece ∈ pieces, c ∈ piece := by
  induction pieces with
  | nil => simp at h
  | cons piece pieces ih =>
      cases pieces with
      | nil =>
          rw [encode_singleton] at h
          exact .inr ⟨piece, List.mem_cons_self, h⟩
      | cons second pieces =>
          rw [encode_cons_cons, List.mem_append, List.mem_cons] at h
          rcases h with hpiece | hdelim | hrest
          · exact .inr ⟨piece, List.mem_cons_self, hpiece⟩
          · exact .inl hdelim
          · refine (ih hrest).imp_right ?_
            rintro ⟨other, hother, hmem⟩
            exact ⟨other, List.mem_cons_of_mem _ hother, hmem⟩

omit [DecidableEq α] in
/-- Plain pieces do not make the empty sequence. -/
theorem encode_ne_nil {pieces : List (List α)} (h : pieces ≠ [])
    (hplain : ∀ piece ∈ pieces, Plain delim piece) : encode delim pieces ≠ [] := by
  cases pieces with
  | nil => exact absurd rfl h
  | cons first rest =>
      have hfirst := (hplain first List.mem_cons_self).1
      cases rest with
      | nil => simpa using hfirst
      | cons second rest => simp [encode_cons_cons]

/-- Reading back what was written. -/
theorem getlines_encode {pieces : List (List α)}
    (hplain : ∀ piece ∈ pieces, Plain delim piece) :
    getlines delim (encode delim pieces) = pieces := by
  induction pieces with
  | nil => rfl
  | cons first rest ih =>
      have hfirst := hplain first List.mem_cons_self
      cases rest with
      | nil => simpa using getlines_single hfirst
      | cons second rest =>
          rw [encode_cons_cons, getlines_append_delim hfirst.2,
            ih fun piece hpiece => hplain piece (List.mem_cons_of_mem _ hpiece)]

/-! ## Rebuilding -/

omit [DecidableEq α] in
/-- Once the sequence is not empty, each piece goes behind a delimiter. -/
theorem foldl_appendPiece {acc : List α} (h : acc ≠ []) (pieces : List (List α)) :
    pieces.foldl (appendPiece delim) acc = encode delim (acc :: pieces) := by
  induction pieces generalizing acc with
  | nil => simp
  | cons piece pieces ih =>
      have hacc : appendPiece delim acc piece = acc ++ delim :: piece := if_neg h
      rw [List.foldl_cons, hacc, ih (by simp), encode_cons_cons]
      cases pieces with
      | nil => simp
      | cons second pieces => simp [encode_cons_cons]

omit [DecidableEq α] in
/-- Leading empty pieces leave no trace in the rebuilt sequence. -/
theorem foldl_appendPiece_nil (pieces : List (List α)) :
    pieces.foldl (appendPiece delim) [] = encode delim (pieces.dropWhile (· = [])) := by
  induction pieces with
  | nil => rfl
  | cons piece pieces ih =>
      rw [List.foldl_cons]
      by_cases hempty : piece = []
      · simpa [appendPiece, hempty] using ih
      · simp [appendPiece, hempty, foldl_appendPiece hempty]

omit [DecidableEq α] in
/-- Appending plain pieces one by one encodes them. -/
theorem foldl_appendPiece_plain {pieces : List (List α)}
    (hplain : ∀ piece ∈ pieces, Plain delim piece) :
    pieces.foldl (appendPiece delim) [] = encode delim pieces := by
  rw [foldl_appendPiece_nil]
  cases pieces with
  | nil => rfl
  | cons first rest => simp [(hplain first List.mem_cons_self).1]

/-! ## Removing a piece -/

/-- Removing a piece from a written list is writing the filtered list. -/
theorem removePiece_encode {pieces : List (List α)} (target : List α)
    (hplain : ∀ piece ∈ pieces, Plain delim piece) :
    removePiece delim target (encode delim pieces)
      = encode delim (pieces.filter (· ≠ target)) := by
  rw [removePiece, getlines_encode hplain]
  exact foldl_appendPiece_plain fun piece hpiece => hplain piece (List.mem_filter.mp hpiece).1

/-- Nothing remains exactly when every piece is the removed one or empty. -/
theorem removePiece_eq_nil {target sequence : List α} :
    removePiece delim target sequence = [] ↔
      ∀ piece ∈ getlines delim sequence, piece = target ∨ piece = [] := by
  rw [removePiece, foldl_appendPiece_nil]
  have hdrop : ∀ pieces : List (List α),
      encode delim (pieces.dropWhile (· = [])) = [] ↔ ∀ piece ∈ pieces, piece = [] := by
    intro pieces
    induction pieces with
    | nil => simp
    | cons piece pieces ih =>
        by_cases hempty : piece = []
        · simpa [hempty] using ih
        · cases pieces with
          | nil => simp [hempty]
          | cons second pieces => simp [hempty, encode_cons_cons]
  rw [hdrop]
  simp only [List.mem_filter, decide_eq_true_eq, ne_eq, and_imp]
  constructor
  · intro h piece hpiece
    by_cases htarget : piece = target
    · exact .inl htarget
    · exact .inr (h piece hpiece htarget)
  · intro h piece hpiece htarget
    exact (h piece hpiece).resolve_left htarget

/-- Nothing remained before a suffix was added if nothing remains after. -/
theorem removePiece_eq_nil_of_append {target sequence rest : List α}
    (h : removePiece delim target (sequence ++ delim :: rest) = []) :
    removePiece delim target sequence = [] := by
  refine removePiece_eq_nil.mpr fun piece hpiece => ?_
  exact removePiece_eq_nil.mp h piece ((getlines_prefix_append sequence rest).subset hpiece)

/-- What remains once does not vanish when the piece is removed again. -/
theorem removePiece_again_ne_nil {target sequence : List α}
    (h : removePiece delim target sequence ≠ []) :
    removePiece delim target (removePiece delim target sequence) ≠ [] := by
  obtain ⟨piece, rest, hpieces⟩ : ∃ piece rest,
      ((getlines delim sequence).filter (· ≠ target)).dropWhile (· = []) = piece :: rest := by
    rw [← List.ne_nil_iff_exists_cons]
    intro hnil
    rw [removePiece, foldl_appendPiece_nil, hnil] at h
    exact h rfl
  have hmem : piece ∈ (getlines delim sequence).filter (· ≠ target) :=
    (List.dropWhile_suffix _).subset (hpieces ▸ List.mem_cons_self)
  have hne : piece ≠ [] := by
    have hhead := List.head?_dropWhile_not (· = [])
      ((getlines delim sequence).filter (· ≠ target))
    rw [hpieces] at hhead
    simpa using hhead
  obtain ⟨hread, htarget⟩ := List.mem_filter.mp hmem
  have hplain : Plain delim piece := ⟨hne, delim_not_mem hread⟩
  have hfirst : piece ∈ getlines delim (removePiece delim target sequence) := by
    rw [removePiece, foldl_appendPiece_nil, hpieces]
    cases rest with
    | nil => simp [getlines_single hplain]
    | cons second rest => simp [encode_cons_cons, getlines_append_delim hplain.2]
  intro hnil
  rcases removePiece_eq_nil.mp hnil piece hfirst with heq | hempty
  · simp [heq] at htarget
  · exact hne hempty

/-! ## Removing never grows a sequence -/

/-- The pieces of a sequence give it back, up to one delimiter at its end. -/
theorem encode_getlines (sequence : List α) :
    sequence = encode delim (getlines delim sequence) ∨
      sequence = encode delim (getlines delim sequence) ++ [delim] := by
  induction sequence with
  | nil => exact .inl rfl
  | cons c rest ih =>
      by_cases hrest : rest = []
      · subst hrest
        by_cases hc : c = delim <;> simp [getlines, hc]
      · obtain ⟨first, others, hpieces⟩ : ∃ first others,
            getlines delim rest = first :: others := by
          rw [← List.ne_nil_iff_exists_cons]
          exact fun h => hrest (getlines_eq_nil.mp h)
        have hhead : encode delim (getlines delim (c :: rest))
            = c :: encode delim (getlines delim rest) := by
          by_cases hc : c = delim
          · simp [getlines, hc, hpieces, encode_cons_cons]
          · cases others <;> simp [getlines, hc, hpieces, encode_cons_cons]
        rw [hhead]
        rcases ih with h | h
        · exact .inl (congrArg (c :: ·) h)
        · exact .inr (congrArg (c :: ·) h)

omit [DecidableEq α] in
/-- The length of a sequence is that of its pieces and delimiters. -/
theorem length_encode {pieces : List (List α)} (h : pieces ≠ []) :
    (encode delim pieces).length + 1 = (pieces.map (·.length + 1)).sum := by
  induction pieces with
  | nil => exact absurd rfl h
  | cons first rest ih =>
      cases rest with
      | nil => simp
      | cons second rest =>
          have hrest := ih (by simp)
          simp only [encode_cons_cons, List.length_append, List.length_cons, List.map_cons,
            List.sum_cons] at hrest ⊢
          omega

omit [DecidableEq α] in
/-- Leaving pieces out gives the same sequence or a shorter one. -/
theorem encode_sublist {kept pieces : List (List α)} (h : kept.Sublist pieces) :
    encode delim kept = encode delim pieces ∨
      (encode delim kept).length < (encode delim pieces).length := by
  have hweight : kept = pieces ∨
      (kept.map (·.length + 1)).sum < (pieces.map (·.length + 1)).sum := by
    induction h with
    | slnil => exact .inl rfl
    | cons piece _ ih =>
        refine .inr ?_
        rcases ih with rfl | hlt
        · simp
        · simp only [List.map_cons, List.sum_cons]
          omega
    | cons_cons piece _ ih =>
        rcases ih with rfl | hlt
        · exact .inl rfl
        · refine .inr ?_
          simp only [List.map_cons, List.sum_cons]
          omega
  rcases hweight with rfl | hlt
  · exact .inl rfl
  · have hpieces : pieces ≠ [] := by
      rintro rfl
      simp at hlt
    have hlong : (encode delim pieces).length + 1 = _ := length_encode hpieces
    by_cases hkept : kept = []
    · subst hkept
      by_cases hempty : encode delim pieces = []
      · exact .inl hempty.symm
      · exact .inr (by simpa using List.length_pos_of_ne_nil hempty)
    · have hshort : (encode delim kept).length + 1 = _ := length_encode hkept
      exact .inr (by omega)

/-- Removing a piece changes nothing or makes the sequence shorter. -/
theorem removePiece_shrinks (target sequence : List α) :
    removePiece delim target sequence = sequence ∨
      (removePiece delim target sequence).length < sequence.length := by
  have hsub : (((getlines delim sequence).filter (· ≠ target)).dropWhile (· = [])).Sublist
      (getlines delim sequence) :=
    (List.dropWhile_suffix _).sublist.trans List.filter_sublist
  have hread : sequence = encode delim (getlines delim sequence) ∨
      sequence = encode delim (getlines delim sequence) ++ [delim] := encode_getlines sequence
  rw [removePiece, foldl_appendPiece_nil]
  rcases hread with hseq | hseq <;> rcases encode_sublist hsub with heq | hlt
  · exact .inl (heq.trans hseq.symm)
  · refine .inr ?_
    rwa [← hseq] at hlt
  · refine .inr ?_
    have hlength := congrArg List.length hseq
    rw [List.length_append] at hlength
    rw [heq, hlength]
    simp
  · refine .inr ?_
    have hlength := congrArg List.length hseq
    rw [List.length_append] at hlength
    omega

end TallerII.Lib.Delimited
