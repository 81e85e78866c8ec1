import Mathlib.Data.List.Basic

/-!
# Shared/Vec — vectors and the memory behind them

A vector asks for memory when it has no room left.  The request is refused if the memory does not have it
— `grants n` tells whether it has `n` bytes — and overflows if it is for more than `isize::MAX` bytes.
-/

namespace WasabiOS
open List

/-- `isize::MAX`, the most bytes one allocation may have -/
def ISIZE_MAX : ℕ := 9223372036854775807

/-- What becomes of a request for memory. -/
inductive Reservation (α : Type) where
  | granted (a : α)
  | allocError
  | capacityOverflow

namespace Reservation
variable {α β : Type} {r : Reservation α} {b : β}

def map (f : α → β) : Reservation α → Reservation β
  | granted a => granted (f a)
  | allocError => allocError
  | capacityOverflow => capacityOverflow

def andThen (f : α → Reservation β) : Reservation α → Reservation β
  | granted a => f a
  | allocError => allocError
  | capacityOverflow => capacityOverflow

theorem map_eq_granted {f : α → β} : r.map f = granted b ↔ ∃ a, r = granted a ∧ f a = b := by cases r <;> simp [map]

theorem andThen_eq_granted {f : α → Reservation β} :
    r.andThen f = granted b ↔ ∃ a, r = granted a ∧ f a = granted b := by
  cases r <;> simp [andThen]
end Reservation

/-- Ask for so many bytes at once. -/
def requestBytes (grants : ℕ → Bool) (bytes : ℕ) : Reservation Unit :=
  if ISIZE_MAX < bytes then .capacityOverflow
  else if bytes = 0 ∨ grants bytes then .granted ()
  else .allocError

/-- The elements of a vector and the number there is room for. -/
structure Vec (α : Type) where
  elems : List α
  capacity : ℕ
  length_le : elems.length ≤ capacity

namespace Vec
variable {α : Type}

def new : Vec α := ⟨[], 0, Nat.le_refl 0⟩

@[simp] theorem elems_new : (new : Vec α).elems = [] := rfl

/-- The capacity a vector of small elements grows to. -/
def grownCapacity (v : Vec α) (additional : ℕ) : ℕ := max 4 (max (2 * v.capacity) (v.elems.length + additional))

theorem le_grownCapacity (v : Vec α) (l : List α) : (v.elems ++ l).length ≤ v.grownCapacity l.length := by
  rw [length_append, grownCapacity]
  omega

/-- `reserve` for the elements, which have `size` bytes each, and then append them. -/
def extend (grants : ℕ → Bool) (size : ℕ) (v : Vec α) (l : List α) : Reservation (Vec α) :=
  if h : (v.elems ++ l).length ≤ v.capacity then .granted ⟨v.elems ++ l, v.capacity, h⟩
  else (requestBytes grants (v.grownCapacity l.length * size)).map fun _ =>
    ⟨v.elems ++ l, v.grownCapacity l.length, v.le_grownCapacity l⟩

def push (grants : ℕ → Bool) (size : ℕ) (v : Vec α) (a : α) : Reservation (Vec α) := v.extend grants size [a]

/-- Push one after another. -/
def pushAll (grants : ℕ → Bool) (size : ℕ) : Vec α → List α → Reservation (Vec α)
  | v, [] => .granted v
  | v, a :: l => (v.push grants size a).andThen fun v => pushAll grants size v l

variable {grants : ℕ → Bool} {size : ℕ} {v v' : Vec α} {l : List α}

theorem elems_of_extend (h : v.extend grants size l = .granted v') : v'.elems = v.elems ++ l := by
  unfold extend at h
  split_ifs at h with hroom
  · cases h
    rfl
  · obtain ⟨-, -, rfl⟩ := Reservation.map_eq_granted.1 h
    rfl

theorem elems_of_push {a : α} (h : v.push grants size a = .granted v') : v'.elems = v.elems ++ [a] := elems_of_extend h

theorem elems_of_pushAll (h : v.pushAll grants size l = .granted v') : v'.elems = v.elems ++ l := by
  induction l generalizing v with
  | nil =>
    cases h
    exact (append_nil _).symm
  | cons a l ih =>
    obtain ⟨w, hw, h⟩ := Reservation.andThen_eq_granted.1 h
    rw [ih h, elems_of_push hw, append_assoc, singleton_append]

/-- Nothing is asked for where nothing is added. -/
theorem extend_nil (v : Vec α) : v.extend grants size [] = .granted v := by
  have hroom : (v.elems ++ []).length ≤ v.capacity := by rw [append_nil]; exact v.length_le
  rw [extend, dif_pos hroom]
  congr
  exact append_nil _
end Vec
end WasabiOS
