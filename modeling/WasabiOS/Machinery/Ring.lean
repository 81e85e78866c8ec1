import Mathlib.Algebra.Order.Ring.Nat
import Mathlib.Data.List.Basic

/-!
# Machinery/Ring — ring buffers

A ring buffer of `n` slots holds a window of an ever growing list: its element `i` is in slot `i % n`.
Readers and writers see slots, proofs count without wrapping.  Within a window of `n` indices the two
agree (`mod_inj`), so a test of slots is a test of indices as long as nobody is more than one lap ahead.

`Holds n ring l a` — from index `a` on, the list `l` is in the ring.  Writing behind the end
(`Holds.write`) is safe while the window is not full.

`lap n i` — the parity of the lap that index `i` is on; it tells an entry of this lap from the one of
the lap before in the same slot (`lap_add`).
-/

namespace Machinery
open Nat List Function
namespace Ring
variable {n a b i : ℕ}

/-! ## Slots -/

/-- Within a lap the slot determines the index. -/
theorem mod_inj (hab : a ≤ b) (hb : b < a + n) : a % n = b % n ↔ a = b := by
  refine ⟨fun h => ?_, congrArg (· % n)⟩
  have hdvd : n ∣ b - a := dvd_of_mod_eq_zero (sub_mod_eq_zero_of_mod_eq h.symm)
  have hzero : b - a = 0 := eq_zero_of_dvd_of_lt hdvd (by omega)
  omega

/-- The distance of two slots is that of the indices. -/
theorem dist (hn : 0 < n) (hab : a ≤ b) (hb : b < a + n) : (b % n + n - a % n) % n = b - a := by
  obtain ⟨d, rfl⟩ := Nat.exists_eq_add_of_le hab
  have hd : d < n := by omega
  have ha := mod_lt a hn
  rw [add_mod a d n, mod_eq_of_lt hd, Nat.add_sub_cancel_left]
  rcases lt_or_ge (a % n + d) n with hlt | hge
  · have hsum : a % n + d + n - a % n = d + n := by omega
    rw [mod_eq_of_lt hlt, hsum, add_mod_right, mod_eq_of_lt hd]
  · have hwrap : (a % n + d) % n = a % n + d - n := by rw [mod_eq_sub_mod hge, mod_eq_of_lt (by omega)]
    have hsum : a % n + d - n + n - a % n = d := by omega
    rw [hwrap, hsum, mod_eq_of_lt hd]

/-! ## Laps -/

/-- The parity of the lap: `true` on the first one. -/
def lap (n i : ℕ) : Bool := i / n % 2 = 0

theorem lap_of_lt (h : i < n) : lap n i = true := by
  rw [lap, div_eq_of_lt h]
  rfl

/-- One lap later the parity is the other one. -/
theorem lap_add (hn : 0 < n) : lap n (i + n) = !lap n i := by
  rw [lap, lap, add_div_right i hn, ← decide_not]
  exact decide_eq_decide.2 (by omega)

/-- The parity changes when the slot is the first one again. -/
theorem lap_succ : lap n (i + 1) = if (i + 1) % n = 0 then !lap n i else lap n i := by
  by_cases h : (i + 1) % n = 0
  · rw [if_pos h, lap, lap, succ_div_of_dvd (dvd_of_mod_eq_zero h), ← decide_not]
    exact decide_eq_decide.2 (by omega)
  · rw [if_neg h, lap, lap, succ_div_of_not_dvd fun hdvd => h (mod_eq_zero_of_dvd hdvd)]

/-! ## Contents -/

variable {α : Type} {ring : ℕ → α} {l l' : List α} {x : α}

/-- Reading a list with a new last element. -/
theorem getElem?_concat {y : α} (h : (l ++ [x])[i]? = some y) :
    (i < l.length ∧ l[i]? = some y) ∨ (i = l.length ∧ x = y) := by
  obtain ⟨hi, hy⟩ := List.getElem?_eq_some_iff.1 h
  rw [List.length_append, List.length_singleton] at hi
  rcases lt_or_eq_of_le (le_of_lt_succ hi) with hlt | rfl
  · rw [getElem?_append_left hlt] at h
    exact .inl ⟨hlt, h⟩
  · rw [getElem?_concat_length] at h
    exact .inr ⟨rfl, Option.some.inj h⟩

/-- From index `a` on the list is in the ring. -/
def Holds (n : ℕ) (ring : ℕ → α) (l : List α) (a : ℕ) : Prop := ∀ i, a ≤ i → i < l.length → l[i]? = some (ring (i % n))

theorem Holds.mono (h : Holds n ring l a) (hab : a ≤ b) : Holds n ring l b := fun i hi => h i (hab.trans hi)

/-- The end may be forgotten. -/
theorem Holds.of_append (h : Holds n ring (l ++ l') a) : Holds n ring l a := by
  intro i ha hi
  have hlt : i < (l ++ l').length := by
    rw [length_append]
    omega
  rw [← h i ha hlt, getElem?_append_left hi]

/-- **Writing behind the end.** -/
theorem Holds.write (h : Holds n ring l a) (hfull : l.length < a + n) :
    Holds n (Function.update ring (l.length % n) x) (l ++ [x]) a := by
  intro i ha hi
  rw [length_append, length_singleton] at hi
  rcases lt_or_eq_of_le (le_of_lt_succ hi) with hlt | rfl
  · have hne : i % n ≠ l.length % n := fun heq => hlt.ne ((mod_inj hlt.le (by omega)).1 heq)
    rw [getElem?_append_left hlt, update_of_ne hne]
    exact h i ha hlt
  · rw [getElem?_concat_length, update_self]
end Ring
end Machinery
