import WasabiOS.Machinery.Prog

/-!
# Data/StaticVec — vectors of fixed capacity

`StaticVec α N` holds at most `N` elements, and the bound is part of the value.  The operations that
assert (`insert`, `push`, `remove`, `drain`, indexing) are `Checked`; `extend` and `collect`
silently drop what does not fit.
-/

open Machinery
namespace WasabiOS
open List

/-- A vector of at most `N` elements. -/
@[ext] structure StaticVec (α : Type) (N : ℕ) where
  toList : List α
  length_le : toList.length ≤ N
  deriving DecidableEq, Repr

namespace StaticVec
variable {α : Type} {N : ℕ} {i : ℕ} {v w : StaticVec α N} {v : StaticVec α N} {k : ℕ} {l r v : StaticVec α N} {x y : α}

/-- Returns a new StaticVec instance. -/
def new : StaticVec α N := ⟨[], Nat.zero_le N⟩

/-- Returns the current length of the StaticVec. -/
def len (v : StaticVec α N) : ℕ := v.toList.length

/-- Returns the total capacity of the StaticVec. -/
def capacity (_ : StaticVec α N) : ℕ := N

/-- Returns true if the current length of the StaticVec is less than its capacity. -/
def isNotFull (v : StaticVec α N) : Bool := v.len < N

/-- Asserts that the current length is less than `N` and that `index` is at most the length, and
inserts `value` at that position. -/
def insert (v : StaticVec α N) (index : ℕ) (value : α) : Checked (StaticVec α N) :=
  if h : v.len < N ∧ index ≤ v.len then
    .ok ⟨v.toList.insertIdx index value, by
      rw [length_insertIdx_of_le_length h.2]
      exact h.1⟩
  else .error .panic

/-- Asserts that there is room, and appends `value`. -/
def push (v : StaticVec α N) (value : α) : Checked (StaticVec α N) :=
  if h : v.len < N then
    .ok ⟨v.toList ++ [value], by rw [length_append]; exact h⟩
  else .error .panic

/-- Asserts that `index` is less than the current length, removes the value at that position and
returns it. -/
def remove (v : StaticVec α N) (index : ℕ) : Checked (α × StaticVec α N) :=
  if h : index < v.len then
    .ok (v.toList.get ⟨index, h⟩, ⟨v.toList.eraseIdx index, Nat.le_trans (length_eraseIdx_le _ _) v.length_le⟩)
  else .error .panic

/-- `drain(start..)`: asserts that `start` is at most the length, keeps what is before it and returns
the rest. -/
def drain (v : StaticVec α N) (start : ℕ) : Checked (StaticVec α N × StaticVec α N) :=
  if start ≤ v.len then
    .ok (⟨v.toList.take start, Nat.le_trans (length_take_le' _ _) v.length_le⟩,
      ⟨v.toList.drop start, by rw [length_drop]; exact Nat.le_trans (Nat.sub_le _ _) v.length_le⟩)
  else .error .panic

/-- `extend`: items that do not fit are ignored. -/
def extend (v : StaticVec α N) (items : List α) : StaticVec α N := ⟨(v.toList ++ items).take N, length_take_le _ _⟩

/-- `collect`: items that do not fit are ignored. -/
def collect (items : List α) : StaticVec α N := ⟨items.take N, length_take_le _ _⟩

/-- `v[index] = value`. -/
def setIdx (v : StaticVec α N) (index : ℕ) (value : α) : Checked (StaticVec α N) :=
  if index < v.len then .ok ⟨v.toList.set index value, by simpa using v.length_le⟩
  else .error .panic

theorem insert_eq_ok : v.insert i x = .ok w ↔ v.len < N ∧ i ≤ v.len ∧ w.toList = v.toList.insertIdx i x := by
  unfold insert
  split
  case isTrue h =>
    refine ⟨fun e => by cases e; exact ⟨h.1, h.2, rfl⟩, fun e => congrArg Except.ok ?_⟩
    exact StaticVec.ext e.2.2.symm
  case isFalse h => exact ⟨nofun, fun e => absurd ⟨e.1, e.2.1⟩ h⟩

theorem push_eq_ok : v.push x = .ok w ↔ v.len < N ∧ w.toList = v.toList ++ [x] := by
  unfold push
  split
  case isTrue h => exact ⟨fun e => by cases e; exact ⟨h, rfl⟩, fun e => congrArg Except.ok (StaticVec.ext e.2.symm)⟩
  case isFalse h => exact ⟨nofun, fun e => absurd e.1 h⟩

theorem remove_eq_ok : v.remove i = .ok (x, w) ↔ v.toList[i]? = some x ∧ w.toList = v.toList.eraseIdx i := by
  unfold remove
  split
  case isTrue h =>
    rw [getElem?_eq_getElem h, Except.ok.injEq, Prod.mk.injEq, StaticVec.ext_iff, Option.some.injEq]
    exact and_congr_right fun _ => eq_comm
  case isFalse h => refine ⟨nofun, fun e => absurd (List.getElem?_eq_some_iff.1 e.1).1 h⟩

theorem drain_eq_ok : v.drain k = .ok (l, r) ↔ k ≤ v.len ∧ l.toList = v.toList.take k ∧ r.toList = v.toList.drop k := by
  unfold drain
  split
  case isTrue h =>
    rw [Except.ok.injEq, Prod.mk.injEq, StaticVec.ext_iff, StaticVec.ext_iff]
    exact ⟨fun e => ⟨h, e.1.symm, e.2.symm⟩, fun e => ⟨e.2.1.symm, e.2.2.symm⟩⟩
  case isFalse h => exact ⟨nofun, fun e => absurd e.1 h⟩

theorem setIdx_eq_ok : v.setIdx i x = .ok w ↔ i < v.len ∧ w.toList = v.toList.set i x := by
  unfold setIdx
  split
  case isTrue h => exact ⟨fun e => by cases e; exact ⟨h, rfl⟩, fun e => congrArg Except.ok (StaticVec.ext e.2.symm)⟩
  case isFalse h => exact ⟨nofun, fun e => absurd e.1 h⟩

/-! What the operations return when their assertions hold. -/

theorem exists_insert (x : α) (hlt : v.len < N) (hi : i ≤ v.len) :
    ∃ w, v.insert i x = .ok w ∧ w.toList = v.toList.insertIdx i x :=
  ⟨_, dif_pos ⟨hlt, hi⟩, rfl⟩

theorem exists_push (x : α) (hlt : v.len < N) : ∃ w, v.push x = .ok w ∧ w.toList = v.toList ++ [x] :=
  ⟨_, dif_pos hlt, rfl⟩

theorem exists_remove (h : v.toList[i]? = some x) : ∃ w, v.remove i = .ok (x, w) ∧ w.toList = v.toList.eraseIdx i :=
  ⟨⟨v.toList.eraseIdx i, Nat.le_trans (length_eraseIdx_le _ _) v.length_le⟩, remove_eq_ok.2 ⟨h, rfl⟩, rfl⟩

theorem exists_drain (h : k ≤ v.len) :
    ∃ l r, v.drain k = .ok (l, r) ∧ l.toList = v.toList.take k ∧ r.toList = v.toList.drop k :=
  ⟨_, _, if_pos h, rfl, rfl⟩

theorem exists_setIdx (x : α) (h : i < v.len) : ∃ w, v.setIdx i x = .ok w ∧ w.toList = v.toList.set i x :=
  ⟨_, if_pos h, rfl⟩

@[simp] theorem toList_new : (new : StaticVec α N).toList = [] := rfl

@[simp] theorem toList_collect (l : List α) : (collect l : StaticVec α N).toList = l.take N := rfl

@[simp] theorem toList_extend (v : StaticVec α N) (l : List α) : (v.extend l).toList = (v.toList ++ l).take N := rfl

/-! What the operations put into a vector was there before or is the new value. -/

theorem mem_of_insert (h : v.insert i x = .ok w) (hy : y ∈ w.toList) : y = x ∨ y ∈ v.toList := by
  obtain ⟨-, hi, hw⟩ := insert_eq_ok.1 h
  rw [hw, mem_insertIdx hi] at hy
  exact hy

theorem mem_of_push (h : v.push x = .ok w) (hy : y ∈ w.toList) : y = x ∨ y ∈ v.toList := by
  rw [(push_eq_ok.1 h).2, mem_append, mem_singleton] at hy
  exact hy.symm

theorem mem_of_setIdx (h : v.setIdx i x = .ok w) (hy : y ∈ w.toList) : y = x ∨ y ∈ v.toList := by
  rw [(setIdx_eq_ok.1 h).2] at hy
  exact (mem_or_eq_of_mem_set hy).symm

theorem mem_of_remove (h : v.remove i = .ok (x, w)) (hy : y = x ∨ y ∈ w.toList) : y ∈ v.toList := by
  obtain ⟨hx, hw⟩ := remove_eq_ok.1 h
  rcases hy with rfl | hy
  · exact mem_of_getElem? hx
  · exact mem_of_mem_eraseIdx (hw ▸ hy)

theorem mem_of_drain (h : v.drain k = .ok (l, r)) (hy : y ∈ l.toList ∨ y ∈ r.toList) : y ∈ v.toList := by
  obtain ⟨-, hl, hr⟩ := drain_eq_ok.1 h
  rcases hy with hy | hy
  · exact mem_of_mem_take (hl ▸ hy)
  · exact mem_of_mem_drop (hr ▸ hy)

theorem mem_of_extend {l : List α} (hy : y ∈ (v.extend l).toList) : y ∈ v.toList ∨ y ∈ l :=
  mem_append.1 (mem_of_mem_take hy)

/-! How many elements have a property, before and after. -/

variable {p : α → Bool}
end StaticVec
end WasabiOS
