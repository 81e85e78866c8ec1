import WasabiOS.Machinery.Run

/-!
# Shared/TaskLocal — a value for each core

`get` takes the value of its core into use.  Nothing gives it back: `TaskLocalRef` is dropped without a trace.
-/

open Machinery Function
namespace WasabiOS
open Bool Run

/-- Used to initialize a TaskLocal on the first time it is accessed on a core.  What a function returns may be
another value on each core and each time. -/
inductive TaskLocalInitializer (T : Type) (n : ℕ) where
  | fn (init : Fin n → ℕ → T)
  | boxFn (init : Fin n → ℕ → T)
  | cloneStatic (orig : T) (clone : T → T)
  | clone (orig : T) (clone : T → T)

/-- The value of a run, if the initializer has run `k` times on the core. -/
def TaskLocalInitializer.run {T : Type} {n : ℕ} (c : Fin n) (k : ℕ) : TaskLocalInitializer T n → T
  | fn init | boxFn init => init c k
  | cloneStatic orig f | clone orig f => f orig

/-- The value stored on a given core -/
structure TaskLocalInner (T : Type) where
  /-- Set to true, after the value is initialized -/
  initialized : Bool
  value : Option T
  /-- Set to true, if the local core value is used by a [TaskLocalRef] -/
  inUse : Bool
  /-- how often the initializer has run (ghost) -/
  runs : ℕ

namespace TaskLocalInner
variable {T : Type} (initial : ℕ → T)

/-- An entry of `new_empty_data` -/
def empty : TaskLocalInner T := ⟨false, none, false, 0⟩

/-- ensures that this core local has a value -/
def init (i : TaskLocalInner T) : TaskLocalInner T :=
  if i.initialized then i else ⟨true, some (initial i.runs), i.inUse, i.runs + 1⟩

/-- `TaskLocal::get`, on the entry of the core: whether there is a reference -/
def get (i : TaskLocalInner T) : Bool × TaskLocalInner T :=
  if i.inUse then (false, i) else (true, { i with inUse := true })

/-- A read through a [TaskLocalRef]. -/
def read (i : TaskLocalInner T) : Option T × TaskLocalInner T := ((i.init initial).value, i.init initial)

/-- A write through a [TaskLocalRef]. -/
def write (v : T) (i : TaskLocalInner T) : TaskLocalInner T := { i.init initial with value := some v }
end TaskLocalInner

/-- What a program does on a core. -/
inductive LocalAccess (T : Type) where
  | get
  | drop
  | read
  | write (v : T)

/-- What there is on a core: the entry of `data`, whether there is a reference, and what was last written. -/
structure CoreUse (T : Type) where
  inner : TaskLocalInner T
  alive : Bool
  written : Option T

namespace CoreUse
variable {T : Type} (initial : ℕ → T)

/-- Only a reference that is there is read, written or dropped. -/
def step : LocalAccess T → CoreUse T → CoreUse T
  | .get, u => { u with inner := u.inner.get.2, alive := u.inner.get.1 || u.alive }
  | .drop, u => { u with alive := false }
  | .read, u => if u.alive then { u with inner := (u.inner.read initial).2 } else u
  | .write v, u => if u.alive then { u with inner := u.inner.write initial v, written := some v } else u

/-- What is promised of a [TaskLocal] on a core. -/
structure Sound (u : CoreUse T) : Prop where
  get : u.inner.get.1 = false ↔ u.alive = true
  once : u.inner.runs ≤ 1
  seen : (u.inner.read initial).1 = some (u.written.getD (initial 0))

/-- A reference is there exactly if one was taken. -/
structure Inv (u : CoreUse T) : Prop where
  inUse : u.inner.inUse = u.alive
  fresh : u.inner.initialized = false → u.inner.runs = 0 ∧ u.written = none
  set : u.inner.initialized = true → u.inner.runs = 1 ∧ u.inner.value = some (u.written.getD (initial 0))

variable {initial} {u : CoreUse T}

theorem Inv.init (h : Inv initial u) : (u.inner.init initial).initialized = true ∧
    Inv initial { u with inner := u.inner.init initial } := by
  rw [TaskLocalInner.init]
  split_ifs with hinit
  · exact ⟨hinit, h⟩
  · obtain ⟨hruns, hwritten⟩ := h.fresh (eq_false_iff.2 hinit)
    refine ⟨rfl, h.inUse, Bool.noConfusion, fun _ => ⟨congrArg (· + 1) hruns, ?_⟩⟩
    rw [hruns, hwritten]
    rfl

theorem Inv.sound (h : Inv initial u) : Sound initial u where
  get := by
    rw [TaskLocalInner.get, ← h.inUse]
    cases u.inner.inUse <;> simp
  once := by
    cases hinit : u.inner.initialized with
    | false => exact (h.fresh hinit).1 ▸ Nat.zero_le 1
    | true => exact Nat.le_of_eq (h.set hinit).1
  seen := (h.init.2.set h.init.1).2

/-- **A reference that is there is not dropped**: then the promises are kept, and only then. -/
theorem Inv.step (h : Inv initial u) {access : LocalAccess T} (hkeep : ¬ (access = .drop ∧ u.alive = true)) :
    Inv initial (step initial access u) := by
  cases access with
  | get =>
    rw [CoreUse.step, TaskLocalInner.get]
    split_ifs with huse
    · exact h
    · exact ⟨rfl, h.fresh, h.set⟩
  | drop =>
    have hnone : u.alive = false := eq_false_iff.2 fun halive => hkeep ⟨rfl, halive⟩
    exact ⟨h.inUse.trans hnone, h.fresh, h.set⟩
  | read =>
    rw [CoreUse.step]
    split_ifs
    · exact h.init.2
    · exact h
  | write v =>
    rw [CoreUse.step]
    split_ifs
    · obtain ⟨hinit, hinv⟩ := h.init
      exact ⟨hinv.inUse, fun hfresh => absurd (hinit.symm.trans hfresh) Bool.noConfusion,
        fun hset => ⟨(hinv.set hset).1, rfl⟩⟩
    · exact h
end CoreUse

/-- The accesses to a [TaskLocal], on the cores of a machine. -/
structure LocalUse (T : Type) (n : ℕ) where
  initializer : TaskLocalInitializer T n
  core : Fin n → CoreUse T

namespace LocalUse
variable {T : Type} {n : ℕ} {s : LocalUse T n}

def start (initializer : TaskLocalInitializer T n) : LocalUse T n := ⟨initializer, fun _ => ⟨.empty, false, none⟩⟩

/-- An access on a core: `self.data[I::s_core_id()]` -/
def step (access : Fin n × LocalAccess T) (s : LocalUse T n) : Option (LocalUse T n) := some { s with
    core := update s.core access.1 ((s.core access.1).step (s.initializer.run access.1) access.2) }

def Sound (s : LocalUse T n) : Prop := ∀ c, (s.core c).Sound (s.initializer.run c)

/-- The access drops a reference. -/
def Drops (access : Fin n × LocalAccess T) (s : LocalUse T n) : Prop :=
  access.2 = .drop ∧ (s.core access.1).alive = true

theorem not_sound_dropped : ¬ Safe step Sound [(0, .get), (0, .drop)] (start (n := 1) (.fn fun _ _ => ())) := by
  rintro ⟨-, s₁, hs₁, -, s₂, hs₂, hsound⟩
  obtain rfl := Option.some.inj hs₁
  obtain rfl := Option.some.inj hs₂
  exact absurd ((hsound 0).get.1 rfl) false_ne_true

/-- **When a [TaskLocal] keeps its promises**: exactly as long as no reference is dropped. -/
theorem accesses_sound_iff (initializer : TaskLocalInitializer T n) (accesses : List (Fin n × LocalAccess T)) :
    Safe step Sound accesses (start initializer) ↔
      Along step (fun access s => ¬ Drops access s) accesses (start initializer) := by
  have hkeep : ∀ (access : Fin n × LocalAccess T) (s : LocalUse T n), (∀ c, (s.core c).Inv (s.initializer.run c)) →
      ¬ Drops access s → ∀ s' ∈ step access s, ∀ c, (s'.core c).Inv (s'.initializer.run c) := by
    intro access s hinv hdrops s' hs c
    obtain rfl := Option.some.inj hs
    by_cases hc : c = access.1
    · subst hc
      simpa only [update_self] using (hinv access.1).step hdrops
    · simpa only [update_of_ne hc] using hinv c
  refine safe_iff_along_of_invariant (P := fun _ _ => True)
    (I := fun s => ∀ c, (s.core c).Inv (s.initializer.run c)) (fun s hinv c => (hinv c).sound)
    (fun access s hinv _ => ⟨?_, fun hdrops => ⟨_, rfl, fun c => (hkeep access s hinv hdrops _ rfl c).sound⟩⟩)
    (fun access s s' hinv _ hdrops hs => hkeep access s hinv hdrops s' hs)
    (fun c => ⟨rfl, fun _ => ⟨rfl, rfl⟩, Bool.noConfusion⟩) (along_of_forall fun _ _ => trivial)
  -- the entry stays in use
  rintro ⟨s', hs, hsound⟩ ⟨hdrop, halive⟩
  obtain rfl := Option.some.inj hs
  have hget := (hsound access.1).get
  simp [hdrop, CoreUse.step, TaskLocalInner.get, (hinv access.1).inUse, halive] at hget
end LocalUse
end WasabiOS
