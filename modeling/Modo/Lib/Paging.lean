import Mathlib.Data.List.Basic

/-!
# Cutting a list into pages

Pages of `size` items, the last one with what is left.  Pages are counted from zero.  There are
as many as the ceiling division says (`slice_ne_nil_iff`), and together they are the list
(`flatten_slices`).
-/

namespace Paging

variable {α : Type*} {size total index : ℕ}

/-- What stands on a page. -/
def slice (size : ℕ) (items : List α) (index : ℕ) : List α := (items.drop (index * size)).take size

/-- How many pages there are. -/
def count (size total : ℕ) : ℕ := (total + size - 1) / size

/-- The pages below the count are those that begin before the end. -/
theorem lt_count_iff (hpos : 0 < size) : index < count size total ↔ index * size < total := by
  rw [count, Nat.lt_iff_add_one_le, Nat.le_div_iff_mul_le hpos, Nat.add_one_mul]
  omega

theorem count_zero (hpos : 0 < size) : count size 0 = 0 := by
  rw [count]
  exact Nat.div_eq_of_lt (by omega)

theorem slice_eq_nil_iff (hpos : 0 < size) (items : List α) :
    slice size items index = [] ↔ items.length ≤ index * size := by
  rw [slice, List.take_eq_nil_iff, List.drop_eq_nil_iff]
  omega

/-- A page holds something exactly when it is below the count. -/
theorem slice_ne_nil_iff (hpos : 0 < size) (items : List α) :
    slice size items index ≠ [] ↔ index < count size items.length := by
  rw [lt_count_iff hpos, Ne, slice_eq_nil_iff hpos, Nat.not_le]

/-- Something comes after a page exactly when there is a next one. -/
theorem drop_ne_nil_iff (hpos : 0 < size) (items : List α) :
    items.drop ((index + 1) * size) ≠ [] ↔ index + 1 < count size items.length := by
  rw [lt_count_iff hpos, Ne, List.drop_eq_nil_iff, Nat.not_le]

/-- The first pages are a beginning of the list. -/
theorem flatten_slices_range (items : List α) (pages : ℕ) :
    ((List.range pages).map (slice size items)).flatten = items.take (pages * size) := by
  induction pages with
  | zero => simp
  | succ pages ih =>
      calc
        ((List.range (pages + 1)).map (slice size items)).flatten
          = items.take (pages * size) ++ slice size items pages := by
            simp [List.range_succ, ih]
        _ = items.take ((pages + 1) * size) := by
            rw [slice, Nat.add_one_mul, List.take_add]

/-- **The pages are the list.** -/
theorem flatten_slices (hpos : 0 < size) (items : List α) :
    ((List.range (count size items.length)).map (slice size items)).flatten = items := by
  rw [flatten_slices_range, List.take_of_length_le]
  exact Nat.not_lt.mp fun hlt => Nat.lt_irrefl _ ((lt_count_iff hpos).mpr hlt)

end Paging
