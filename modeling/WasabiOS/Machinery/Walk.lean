import Mathlib.Tactic.Common

/-!
# Machinery/Walk — loops that need not end

One round of a loop takes its state to another, or leaves the loop, or gets stuck.  `Ends` says that the
rounds from a state come to leaving.  A loop that is run on fuel returns for enough of it exactly if it
`Ends` (`Loops.ends_iff`), and does not end where every round leads to another (`not_ends_of_closed`).
-/

namespace Machinery
namespace Walk
variable {p : Prop}

/-- What one round of a loop does. -/
inductive Move (σ : Type*) where
  /-- leave the loop -/
  | halt
  | go (s : σ)
  | stuck

namespace Move
variable {σ τ ρ : Type*} {P : τ → Prop}

def bind (m : Move σ) (f : σ → Move τ) : Move τ :=
  match m with
  | halt => halt
  | go s => f s
  | stuck => stuck

def map (f : σ → τ) (m : Move σ) : Move τ := m.bind fun s => go (f s)

/-- The round is not stuck, and where it goes on the state is as wanted. -/
def Holds (P : σ → Prop) : Move σ → Prop
  | halt => True
  | go s => P s
  | stuck => False

@[simp] theorem go_bind (s : σ) (f : σ → Move τ) : (go s).bind f = f s := rfl

@[simp] theorem holds_halt {P : σ → Prop} : (halt : Move σ).Holds P ↔ True := Iff.rfl

@[simp] theorem holds_go {P : σ → Prop} {s : σ} : (go s).Holds P ↔ P s := Iff.rfl

@[simp] theorem holds_stuck {P : σ → Prop} : (stuck : Move σ).Holds P ↔ False := Iff.rfl

@[simp] theorem holds_bind {m : Move σ} {f : σ → Move τ} : (m.bind f).Holds P ↔ m.Holds fun s => (f s).Holds P := by
  cases m <;> rfl

@[simp] theorem holds_map {m : Move σ} {f : σ → τ} : (m.map f).Holds P ↔ m.Holds fun s => P (f s) := holds_bind

theorem bind_assoc (m : Move σ) (f : σ → Move τ) (g : τ → Move ρ) :
    (m.bind f).bind g = m.bind fun s => (f s).bind g := by
  cases m <;> rfl

theorem map_bind (m : Move σ) (f : σ → Move τ) (g : τ → ρ) :
    (m.bind f).map g = m.bind fun s => (f s).map g := bind_assoc m f _

theorem map_map (m : Move σ) (f : σ → τ) (g : τ → ρ) : (m.map f).map g = m.map fun s => g (f s) := map_bind m _ g

theorem holds_congr {m : Move σ} {P Q : σ → Prop} (h : ∀ s, P s ↔ Q s) : m.Holds P ↔ m.Holds Q :=
  iff_of_eq (congrArg (Holds · m) (funext fun s => propext (h s)))
end Move

variable {σ τ : Type*}

/-- The rounds from a state come to the end of the loop. -/
inductive Ends (step : σ → Move σ) : σ → Prop where
  | halt {s : σ} (h : step s = .halt) : Ends step s
  | go {s t : σ} (h : step s = .go t) (ht : Ends step t) : Ends step s

variable {step : σ → Move σ} {s t : σ}

theorem ends_iff_holds : Ends step s ↔ (step s).Holds (Ends step) := by
  constructor
  · intro h
    cases h with
    | halt h => simp only [h, Move.holds_halt]
    | go h ht => simpa only [h, Move.holds_go] using ht
  · intro h
    cases hs : step s with
    | halt => exact .halt hs
    | go t => exact .go hs (by simpa only [hs, Move.holds_go] using h)
    | stuck => simp only [hs, Move.holds_stuck] at h

/-- **A loop does not end where every round leads on.** -/
theorem not_ends_of_closed {P : σ → Prop} (hP : ∀ s, P s → ∃ t, step s = .go t ∧ P t) (hs : P s) : ¬ Ends step s := by
  intro hends
  induction hends with
  | @halt s h =>
    obtain ⟨t, hgo, -⟩ := hP s hs
    rw [h] at hgo
    cases hgo
  | @go s t h _ ih =>
    obtain ⟨t', hgo, ht⟩ := hP s hs
    rw [h] at hgo
    cases hgo
    exact ih ht

/-- A loop ends together with what is seen of it, if that goes round by itself. -/
theorem ends_iff_of_view {step' : τ → Move τ} (view : σ → τ) (h : ∀ s, step' (view s) = (step s).map view) :
    Ends step s ↔ Ends step' (view s) := by
  constructor
  · intro hs
    induction hs with
    | @halt s hs => exact .halt (by rw [h, hs]; rfl)
    | @go s t hs _ ih => exact .go (by rw [h, hs]; rfl) ih
  · intro hs
    generalize ht : view s = t at hs
    induction hs generalizing s with
    | halt hs =>
      rw [← ht, h] at hs
      cases hmove : step s <;> rw [hmove] at hs <;> cases hs
      exact .halt hmove
    | go hs _ ih =>
      rw [← ht, h] at hs
      cases hmove : step s <;> rw [hmove] at hs <;> cases hs
      exact .go hmove (ih rfl)

/-! ## Loops on fuel -/

/-- It holds for any fuel that is enough. -/
def Enough (P : ℕ → Prop) : Prop := ∃ n, ∀ fuel, n ≤ fuel → P fuel

theorem enough_const : Enough (fun _ => p) ↔ p := ⟨fun ⟨n, h⟩ => h n (Nat.le_refl n), fun h => ⟨0, fun _ _ => h⟩⟩

theorem enough_holds {m : Move τ} {P : ℕ → τ → Prop} :
    Enough (fun fuel => m.Holds (P fuel)) ↔ m.Holds fun a => Enough fun fuel => P fuel a := by
  cases m with
  | halt => exact enough_const
  | go a => exact Iff.rfl
  | stuck => exact enough_const

theorem enough_or {P : ℕ → Prop} : Enough (fun fuel => p ∨ P fuel) ↔ p ∨ Enough P := by
  by_cases hp : p
  · exact iff_of_true ⟨0, fun _ _ => .inl hp⟩ (.inl hp)
  · simp only [hp, false_or]

/-- A loop on fuel: `returns n s` tells that it comes back from `s` with fuel `n`. -/
structure Loops (returns : ℕ → σ → Prop) (step : σ → Move σ) : Prop where
  succ (fuel : ℕ) (s : σ) : returns (fuel + 1) s ↔ (step s).Holds (returns fuel)
  zero (s : σ) : returns 0 s → step s = .halt

namespace Loops
variable {returns : ℕ → σ → Prop} {fuel : ℕ}

/-- A loop that comes back has come to its end. -/
theorem ends_of_returns (hl : Loops returns step) (h : returns fuel s) : Ends step s := by
  induction fuel generalizing s with
  | zero => exact .halt (hl.zero s h)
  | succ fuel ih =>
    have hs := (hl.succ fuel s).1 h
    cases hmove : step s with
    | halt => exact .halt hmove
    | go t => exact .go hmove (ih (by simpa only [hmove, Move.holds_go] using hs))
    | stuck => simp only [hmove, Move.holds_stuck] at hs

/-- **A loop comes back, given enough fuel, exactly if it ends.** -/
theorem ends_iff (hl : Loops returns step) : Enough (fun fuel => returns fuel s) ↔ Ends step s := by
  constructor
  · rintro ⟨n, hn⟩
    exact hl.ends_of_returns (hn n (Nat.le_refl n))
  · intro hends
    induction hends with
    | halt h =>
      refine ⟨1, fun fuel hfuel => ?_⟩
      obtain ⟨fuel, rfl⟩ := Nat.exists_eq_add_of_le' hfuel
      rw [hl.succ, h]
      trivial
    | go h _ ih =>
      obtain ⟨n, hn⟩ := ih
      refine ⟨n + 1, fun fuel hfuel => ?_⟩
      obtain ⟨fuel, rfl⟩ : ∃ m, fuel = m + 1 := ⟨fuel - 1, by omega⟩
      rw [hl.succ, h]
      exact hn fuel (by omega)

/-- Where each round makes something smaller, that much fuel is enough. -/
theorem returns_iff_ends (hl : Loops returns step) {μ : σ → ℕ} (hμ : ∀ s t, step s = .go t → μ t < μ s)
    (hzero : ∀ s, μ s = 0 → returns 0 s) (hfuel : μ s ≤ fuel) :
    returns fuel s ↔ Ends step s := by
  refine ⟨hl.ends_of_returns, fun hends => ?_⟩
  induction fuel generalizing s with
  | zero => exact hzero s (Nat.le_zero.1 hfuel)
  | succ fuel ih =>
    rw [hl.succ]
    cases hends with
    | halt h => simp only [h, Move.holds_halt]
    | @go _ t h ht =>
      rw [h]
      have := hμ s t h
      exact ih (by omega) ht
end Loops
end Walk
end Machinery
