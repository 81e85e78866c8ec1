import Mathlib.Data.List.Basic

/-!
# Machinery/Slice — reading and overwriting a list at a position

`slice l pos n` are the `n` elements from `pos` on, `overwrite z l pos data` is the list with `data` there; a gap
before it is filled with `z`.  What is overwritten is read back, and what lies apart from it is unchanged.
-/

namespace Machinery
open List
variable {α : Type} {l data : List α} {z : α} {pos p n i : ℕ}

/-- The `n` elements from `pos` on. -/
def slice (l : List α) (pos n : ℕ) : List α := (l.drop pos).take n

/-- The list with `data` at `pos`. -/
def overwrite (z : α) (l : List α) (pos : ℕ) (data : List α) : List α :=
  l.take pos ++ List.replicate (pos - l.length) z ++ data ++ l.drop (pos + data.length)

theorem length_slice (h : pos + n ≤ l.length) : (slice l pos n).length = n := by
  rw [slice, length_take, length_drop]
  omega

theorem slice_add {m : ℕ} : slice l pos (n + m) = slice l pos n ++ slice l (pos + n) m := by
  rw [slice, slice, slice, take_add, drop_drop]

theorem getElem?_slice : (slice l pos n)[i]? = if i < n then l[pos + i]? else none := by
  rw [slice, getElem?_take, getElem?_drop]

theorem length_overwrite : (overwrite z l pos data).length = max l.length (pos + data.length) := by
  rw [overwrite, length_append, length_append, length_append, length_take,
    length_replicate, length_drop]
  omega

theorem overwrite_of_le (h : pos ≤ l.length) :
    overwrite z l pos data = l.take pos ++ data ++ l.drop (pos + data.length) := by
  rw [overwrite, Nat.sub_eq_zero_of_le h, replicate_zero, append_nil]

/-- **What is overwritten is read back.** -/
theorem slice_overwrite_self : slice (overwrite z l pos data) pos data.length = data := by
  have hlen : (l.take pos ++ List.replicate (pos - l.length) z).length = pos := by
    rw [length_append, length_take, length_replicate]
    omega
  rw [slice, overwrite, append_assoc, drop_left' hlen, take_left]

/-- **What lies apart is unchanged.** -/
theorem slice_overwrite_of_disjoint (hpos : pos ≤ l.length) (h : p + n ≤ pos ∨ pos + data.length ≤ p) :
    slice (overwrite z l pos data) p n = slice l p n := by
  apply ext_getElem?
  intro i
  rw [getElem?_slice, getElem?_slice]
  split_ifs with hi
  · have htake : (l.take pos).length = pos := by rw [length_take, Nat.min_eq_left hpos]
    rw [overwrite_of_le hpos, append_assoc]
    rcases h with hbefore | hafter
    · rw [getElem?_append_left (by omega), getElem?_take_of_lt (by omega)]
    · rw [getElem?_append_right (by omega), htake, getElem?_append_right (by omega), getElem?_drop]
      congr 1
      omega
  · rfl
end Machinery
