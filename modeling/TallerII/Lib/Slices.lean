import Mathlib.Data.List.Basic
import Mathlib.Data.Nat.Basic

/-!
# Slices of a fixed size

A sequence cut into slices of one size, the last of which may be shorter. `sliceCount` is how many
there are; put together again they are the sequence (`flatten_slices`).
-/

namespace TallerII.Lib.Slices

universe u

variable {α : Type u}

/-- The slice with an index, counted from 0. -/
def slice (size : Nat) (sequence : List α) (index : Nat) : List α :=
  (sequence.drop (index * size)).take size

/-- How many slices a sequence of a length has. -/
def sliceCount (length size : Nat) : Nat :=
  (length + size - 1) / size

variable {size length index : Nat}

/-- A slice begins within the sequence exactly when it is one of those. -/
theorem lt_sliceCount (hsize : 0 < size) :
    index < sliceCount length size ↔ index * size < length := by
  rw [sliceCount, Nat.lt_div_iff_mul_lt hsize]
  omega

/-- The first slices together are the beginning of the sequence. -/
theorem flatten_range (size : Nat) (sequence : List α) (count : Nat) :
    ((List.range count).map (slice size sequence)).flatten = sequence.take (count * size) := by
  induction count with
  | zero => simp
  | succ count ih =>
      rw [List.range_succ, List.map_append, List.flatten_append, ih, Nat.succ_mul, List.take_add]
      simp [slice]

/-- All slices together are the sequence. -/
theorem flatten_slices (hsize : 0 < size) (sequence : List α) :
    ((List.range (sliceCount sequence.length size)).map (slice size sequence)).flatten
      = sequence := by
  rw [flatten_range, List.take_of_length_le]
  have hend := (@lt_sliceCount size sequence.length (sliceCount sequence.length size) hsize).not
  omega

/-- Every slice but the last is full. -/
theorem length_slice (hsize : 0 < size) {sequence : List α}
    (h : index + 1 < sliceCount sequence.length size) :
      (slice size sequence index).length = size := by
  rw [lt_sliceCount hsize, Nat.succ_mul] at h
  rw [slice, List.length_take, List.length_drop]
  omega

end TallerII.Lib.Slices
