import WasabiOS.Machinery.Prog
import WasabiOS.Machinery.Run

/-!
# Shared/SingleArc — a counted value with one strong handle

`SingleArc` keeps a value in a box with a flag and a counter: `strong_ref` says whether the one strong
handle exists, `ref_count` how many handles of any kind do.  Every way to make or drop a handle keeps
the two in step with the handles, except that a weak handle is cloned by `derive(Clone)`, which copies
the pointer and counts nothing.  So of the runs over handles that exist, **exactly those that clone no
weak handle, and in which the counter does not wrap, keep the book** (`owned_iff`).
-/

open Machinery Prog
namespace WasabiOS
open List Run

/-- `Inner<T>`, beside its data. -/
structure Inner where
  strongRef : Bool
  refCount : UInt64
  deriving DecidableEq, Repr

/-- What is left of the value. -/
structure Boxed where
  /-- the box, until it is freed -/
  inner : Option Inner
  /-- how often the value was dropped -/
  drops : ℕ
  deriving DecidableEq, Repr

/-- A pointer to the box. -/
inductive Handle where
  /-- a `SingleArc<T>` -/
  | strong
  /-- a `WeakSingleArc<T>` -/
  | weak
  deriving DecidableEq, Repr

namespace Boxed

/-- Read the box.  It is undefined to do so once it is freed. -/
def load : Prog Boxed Empty Inner := do
  match (← Prog.get).inner with
  | some inner => return inner
  | none => crash .undefined

/-- Write the box. -/
def store (inner : Inner) : Prog Boxed Empty Unit := Prog.modify fun b => { b with inner := some inner }

/-- `ref_count.fetch_add(1)` -/
def fetchAdd : Prog Boxed Empty Unit := do
  let inner ← load
  store { inner with refCount := inner.refCount + 1 }

/-- `ref_count.fetch_sub(1)`, and if that was the last reference the box is dropped. -/
def release : Prog Boxed Empty Unit := do
  let inner ← load
  store { inner with refCount := inner.refCount - 1 }
  if inner.refCount = 1 then Prog.modify fun b => { inner := none, drops := b.drops + 1 }
end Boxed

open Boxed (load store fetchAdd release)
namespace SingleArc

def new : Prog Boxed Empty Handle := do
  store { strongRef := true, refCount := 1 }
  return .strong

def drop : Prog Boxed Empty Unit := do
  store { ← load with strongRef := false }
  release

def downgrade : Prog Boxed Empty Handle := do
  fetchAdd
  return .weak
end SingleArc

namespace WeakSingleArc

/-- `#[derive(Clone)]`: a copy of the pointer -/
def clone : Prog Boxed Empty Handle := return .weak

def drop : Prog Boxed Empty Unit := release

/-- Try to upgrade to a [SingleArc]. -/
def tryUpgrade : Prog Boxed Empty (Option Handle) := do
  let inner ← load
  if inner.strongRef then return none
  store { inner with strongRef := true }
  fetchAdd
  return some .strong
end WeakSingleArc

/-- Creates a new [Strong], [Weak] pair -/
def Strong.new : Prog Boxed Empty (Handle × Handle) := do
  let single ← SingleArc.new
  return (single, ← SingleArc.downgrade)

/-- Creates a new [Weak] that can later be upgraded to a [Strong] -/
def Weak.new : Prog Boxed Empty Handle := do
  let _single ← SingleArc.new
  let handle ← SingleArc.downgrade
  SingleArc.drop
  return handle

/-! ## Runs over the handles of one value -/

/-- A value and the handles to it. -/
structure Owners where
  boxed : Boxed
  handles : List Handle
  deriving DecidableEq, Repr

/-- A way to make a value. -/
inductive Ctor where
  | singleArc
  | strong
  | weak
  deriving DecidableEq, Repr

/-- The handles a constructor returns. -/
def Ctor.run : Ctor → Prog Boxed Empty (List Handle)
  | singleArc => do return [← SingleArc.new]
  | strong => do
    let pair ← Strong.new
    return [pair.1, pair.2]
  | weak => do return [← Weak.new]

/-- The value a constructor makes. -/
def Ctor.start (c : Ctor) : Option Owners :=
  match c.run { inner := none, drops := 0 } with
  | .ok handles boxed => some { boxed, handles }
  | .err _ _ => none
  | .fault _ => none

/-- A call on one of the handles. -/
inductive HandleOp where
  | downgrade
  | clone
  | tryUpgrade
  | drop (h : Handle)
  deriving DecidableEq, Repr

namespace HandleOp

/-- The handle the call is made on. -/
def on : HandleOp → Handle
  | downgrade => .strong
  | clone => .weak
  | tryUpgrade => .weak
  | drop h => h

/-- The call, and the handles it returns. -/
def run : HandleOp → Prog Boxed Empty (List Handle)
  | downgrade => do return [← SingleArc.downgrade]
  | clone => do return [← WeakSingleArc.clone]
  | tryUpgrade => do return (← WeakSingleArc.tryUpgrade).toList
  | drop .strong => do
    SingleArc.drop
    return []
  | drop .weak => do
    WeakSingleArc.drop
    return []

/-- The handles that outlive the call. -/
def kept (handles : List Handle) : HandleOp → List Handle
  | drop h => handles.erase h
  | _ => handles

/-- The state after the call. -/
def step (op : HandleOp) (s : Owners) : Option Owners :=
  match op.run s.boxed with
  | .ok made boxed => some { boxed, handles := made ++ op.kept s.handles }
  | .err _ _ => none
  | .fault _ => none

/-- The handle of the call exists. -/
def Legal (op : HandleOp) (s : Owners) : Prop := op.on ∈ s.handles

instance (op : HandleOp) (s : Owners) : Decidable (op.Legal s) := inferInstanceAs (Decidable (op.on ∈ s.handles))

/-- A handle the call makes is counted. -/
def Counts (s : Owners) : HandleOp → Prop
  | downgrade => s.handles.length + 1 < UInt64.size
  | clone => False
  | tryUpgrade => .strong ∈ s.handles ∨ s.handles.length + 1 < UInt64.size
  | drop _ => True

instance (s : Owners) : ∀ op : HandleOp, Decidable (op.Counts s)
  | downgrade => inferInstanceAs (Decidable (_ < _))
  | clone => inferInstanceAs (Decidable False)
  | tryUpgrade => inferInstanceAs (Decidable (_ ∨ _))
  | drop _ => inferInstanceAs (Decidable True)
end HandleOp

/-- **The book is kept**: `ref_count` counts the handles, `strong_ref` says whether the one strong
handle exists, and the value is dropped once, with its last handle. -/
structure Owned (s : Owners) : Prop where
  refCount : ∀ inner ∈ s.boxed.inner, inner.refCount.toNat = s.handles.length
  strong_le_one : s.handles.count .strong ≤ 1
  strongRef : ∀ inner ∈ s.boxed.inner, inner.strongRef = true ↔ .strong ∈ s.handles
  drops : s.boxed.drops = if s.handles = [] then 1 else 0
  freed : s.boxed.inner = none ↔ s.handles = []

variable {inner : Inner} {d : ℕ} {hs : List Handle} {s : Owners} {op : HandleOp}

/-- The book of a value that is not freed. -/
theorem owned_some : Owned ⟨⟨some inner, d⟩, hs⟩ ↔ inner.refCount.toNat = hs.length ∧
    hs.count .strong ≤ 1 ∧ (inner.strongRef = true ↔ .strong ∈ hs) ∧ hs ≠ [] ∧ d = 0 := by
  constructor
  · intro h
    have hne : hs ≠ [] := fun hnil => by simpa using h.freed.2 hnil
    exact ⟨h.refCount inner rfl, h.strong_le_one, h.strongRef inner rfl, hne, h.drops.trans (if_neg hne)⟩
  · rintro ⟨hcount, hone, hstrong, hne, rfl⟩
    refine ⟨?_, hone, ?_, (if_neg hne).symm, iff_of_false (by simp) hne⟩
    · rintro _ ⟨⟩
      exact hcount
    · rintro _ ⟨⟩
      exact hstrong

/-- The book of a value that is freed. -/
theorem owned_none : Owned ⟨⟨none, d⟩, hs⟩ ↔ hs = [] ∧ d = 1 := by
  constructor
  · intro h
    have hnil : hs = [] := h.freed.1 rfl
    exact ⟨hnil, h.drops.trans (if_pos hnil)⟩
  · rintro ⟨rfl, rfl⟩
    exact ⟨fun _ h => (Option.some_ne_none _ h.symm).elim, Nat.zero_le 1,
      fun _ h => (Option.some_ne_none _ h.symm).elim, rfl, iff_of_true rfl rfl⟩

/-- A handle that is made with an increment. -/
theorem owned_push {h : Handle} {flag : Bool} (hcount : inner.refCount.toNat = hs.length)
    (hone : (h :: hs).count .strong ≤ 1) (hflag : flag = true ↔ .strong ∈ h :: hs) :
    Owned ⟨⟨some ⟨flag, inner.refCount + 1⟩, 0⟩, h :: hs⟩ ↔ hs.length + 1 < UInt64.size := by
  rw [owned_some, UInt64.toNat_add, hcount, UInt64.toNat_one, length_cons]
  constructor
  · rintro ⟨hmod, -⟩
    rw [← hmod]
    exact Nat.mod_lt _ (by decide)
  · intro hlt
    exact ⟨Nat.mod_eq_of_lt hlt, hone, hflag, cons_ne_nil h hs, rfl⟩

theorem release_some : release ⟨some inner, d⟩ =
    if inner.refCount = 1 then .ok () ⟨none, d + 1⟩
    else .ok () ⟨some { inner with refCount := inner.refCount - 1 }, d⟩ := by
  simp only [release, load, store, bind_apply, get_apply, andThen_ok, pure_apply, modify_apply]
  split <;> rfl

/-- The last reference goes with the last handle. -/
theorem release_owned {h : Handle} (hcount : inner.refCount.toNat = hs.length)
    (hone : hs.count .strong ≤ 1) (hh : h ∈ hs)
    (hflag : inner.strongRef = true ↔ .strong ∈ hs.erase h) :
    ∃ b, release ⟨some inner, 0⟩ = .ok () b ∧ Owned ⟨b, hs.erase h⟩ := by
  have hlen : (hs.erase h).length = hs.length - 1 := length_erase_of_mem hh
  rw [release_some]
  by_cases hlast : inner.refCount = 1
  · rw [if_pos hlast]
    refine ⟨_, rfl, owned_none.2 ⟨?_, rfl⟩⟩
    rw [hlast, UInt64.toNat_one] at hcount
    exact length_eq_zero_iff.1 (by omega)
  · rw [if_neg hlast]
    have hge : 2 ≤ inner.refCount.toNat := by
      have hpos := length_pos_of_mem hh
      have hne : inner.refCount.toNat ≠ 1 := fun h => hlast (UInt64.toNat_inj.1 h)
      omega
    have hle : (1 : UInt64) ≤ inner.refCount := UInt64.le_iff_toNat_le.2 (Nat.le_of_succ_le hge)
    refine ⟨_, rfl, owned_some.2 ⟨?_, Nat.le_trans (erase_sublist.count_le _) hone, hflag, ?_, rfl⟩⟩
    · rw [UInt64.toNat_sub_of_le _ _ hle, UInt64.toNat_one, hcount, hlen]
    · exact length_pos_iff.1 (by omega)

theorem exists_mem_some {α : Type} {a : α} {P : α → Prop} : (∃ b ∈ some a, P b) ↔ P a := by
  simp only [Option.mem_some_iff, exists_eq_left']

/-- **One call** keeps the book if and only if the handle it makes is counted. -/
theorem HandleOp.step_iff (howned : Owned s) (hlegal : op.Legal s) : (∃ s' ∈ op.step s, Owned s') ↔ op.Counts s := by
  obtain ⟨⟨inner, d⟩, hs⟩ := s
  rcases inner with _ | inner
  · obtain ⟨rfl, -⟩ := owned_none.1 howned
    exact absurd hlegal not_mem_nil
  obtain ⟨hcount, hone, hflag, hne, rfl⟩ := owned_some.1 howned
  cases op with
  | downgrade =>
    have hstep : downgrade.step ⟨⟨some inner, 0⟩, hs⟩ =
      some ⟨⟨some ⟨inner.strongRef, inner.refCount + 1⟩, 0⟩, .weak :: hs⟩ := rfl
    rw [hstep, exists_mem_some]
    exact owned_push hcount (by simpa using hone) (by simpa using hflag)
  | clone =>
    have hstep : clone.step ⟨⟨some inner, 0⟩, hs⟩ = some ⟨⟨some inner, 0⟩, .weak :: hs⟩ := rfl
    rw [hstep, exists_mem_some]
    refine iff_of_false (fun h => ?_) id
    have hcount' := (owned_some.1 h).1
    rw [hcount, length_cons] at hcount'
    exact Nat.ne_of_lt (Nat.lt_succ_self _) hcount'
  | tryUpgrade =>
    by_cases hstrong : .strong ∈ hs
    · have hsame : (∃ s' ∈ tryUpgrade.step ⟨⟨some inner, 0⟩, hs⟩, Owned s') := by
        refine ⟨_, ?_, howned⟩
        simp [step, run, kept, WeakSingleArc.tryUpgrade, load, hflag.2 hstrong]
      exact iff_of_true hsame (.inl hstrong)
    · have hfalse : inner.strongRef = false := Bool.eq_false_iff.2 fun h => hstrong (hflag.1 h)
      have hstep : tryUpgrade.step ⟨⟨some inner, 0⟩, hs⟩ =
          some ⟨⟨some ⟨true, inner.refCount + 1⟩, 0⟩, .strong :: hs⟩ := by
        simp [step, run, kept, WeakSingleArc.tryUpgrade, load, store, fetchAdd, hfalse]
      have hzero : hs.count .strong = 0 := count_eq_zero.2 hstrong
      rw [hstep, exists_mem_some, owned_push hcount (by simp [hzero]) (by simp)]
      exact (or_iff_right hstrong).symm
  | drop h =>
    refine iff_of_true ?_ trivial
    cases h with
    | strong =>
      have hgone : .strong ∉ hs.erase .strong := by
        rw [← count_eq_zero, count_erase_self]
        omega
      obtain ⟨b, hrun, hb⟩ : ∃ b, release ⟨some { inner with strongRef := false }, 0⟩ = .ok () b ∧
          Owned ⟨b, hs.erase .strong⟩ :=
        release_owned hcount hone hlegal (iff_of_false Bool.false_ne_true hgone)
      exact ⟨_, by simp [step, run, kept, SingleArc.drop, load, store, hrun], hb⟩
    | weak =>
      have hkeep : .strong ∈ hs ↔ .strong ∈ hs.erase .weak := (mem_erase_of_ne Handle.noConfusion).symm
      obtain ⟨b, hrun, hb⟩ := release_owned (h := .weak) hcount hone hlegal (hflag.trans hkeep)
      exact ⟨_, by simp [step, run, kept, WeakSingleArc.drop, hrun], hb⟩

/-- The book of a new value. -/
theorem Ctor.start_owned {c : Ctor} (h : s ∈ c.start) : Owned s := by
  cases c with
  | singleArc | strong | weak =>
    obtain rfl := Option.some.inj h
    exact owned_some.2 (by decide)

/-- **The book is kept if and only if no weak handle is cloned** and the counter does not wrap: of the
runs of calls on handles that exist, exactly those stay in `Owned`. -/
theorem owned_iff {c : Ctor} (hc : s ∈ c.start) {ops : List HandleOp}
    (hlegal : Along HandleOp.step HandleOp.Legal ops s) :
    Safe HandleOp.step Owned ops s ↔ Along HandleOp.step (fun op s => op.Counts s) ops s :=
  safe_iff_along (fun _ _ => HandleOp.step_iff) (Ctor.start_owned hc) hlegal

/-- A strong handle that is dropped and made again from a weak one. -/
theorem owned_upgrade : ∃ s ∈ Ctor.singleArc.start, Safe HandleOp.step Owned
    [.downgrade, .drop .strong, .tryUpgrade, .tryUpgrade, .drop .weak, .drop .strong] s :=
  ⟨_, rfl, (owned_iff (c := .singleArc) rfl (by decide)).2 (by decide)⟩

/-- Two weak handles of which one is a clone: the second reference to go frees the value under the
third handle. -/
theorem not_owned_clone : ∃ s ∈ Ctor.singleArc.start,
    Along HandleOp.step HandleOp.Legal [.downgrade, .clone, .drop .strong, .drop .weak] s ∧
      ¬ Safe HandleOp.step Owned [.downgrade, .clone, .drop .strong, .drop .weak] s ∧
      runFrom HandleOp.step [.downgrade, .clone, .drop .strong, .drop .weak] s = some ⟨⟨none, 1⟩, [.weak]⟩ := by
  refine ⟨_, rfl, by decide, ?_, rfl⟩
  rintro ⟨-, s₁, ⟨⟩, -, s₂, ⟨⟩, h⟩
  exact absurd (h.init.refCount _ rfl) (by decide)
end WasabiOS
