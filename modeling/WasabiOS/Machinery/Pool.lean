import Mathlib.Data.Finset.Basic
import WasabiOS.Machinery.Run

/-!
# Machinery/Pool — allocators of disjoint blocks of addresses

An allocator keeps a set of free addresses and hands out **blocks** of them.  Which blocks are held is
not part of the allocator: `Pool.step` keeps the list of them beside it.

A pool is **conserving** if the free addresses are always the initial ones without those of the blocks
held.  A call that hands out blocks conserves exactly if it takes no more and no less out of the free
set than it hands out; `safe_conserved_iff` carries that to whole runs.
-/

namespace Machinery
open List Finset Option Run
namespace Pool
variable {ι : Type} (addrs : ι → Finset ℕ)

/-- The addresses of some blocks. -/
def owned (L : List ι) : Finset ℕ := L.foldr (fun u S => addrs u ∪ S) ∅

/-- No two of the blocks share an address. -/
def Exclusive (L : List ι) : Prop := L.Pairwise fun u v => Disjoint (addrs u) (addrs v)

variable {addrs} {L L' U : List ι} {u : ι} {x : ℕ} {F F0 T : Finset ℕ}

@[simp] theorem owned_nil : owned addrs [] = ∅ := rfl

@[simp] theorem owned_cons : owned addrs (u :: L) = addrs u ∪ owned addrs L := rfl

theorem mem_owned : x ∈ owned addrs L ↔ ∃ u ∈ L, x ∈ addrs u := by
  induction L with
  | nil => simp
  | cons u L ih => rw [owned_cons, mem_union, ih, exists_mem_cons_iff]

theorem owned_append : owned addrs (U ++ L) = owned addrs U ∪ owned addrs L := by
  ext x
  simp only [mem_owned, mem_union, mem_append, or_and_right, exists_or]

theorem owned_perm (h : L.Perm L') : owned addrs L = owned addrs L' := by
  ext x
  simp only [mem_owned, h.mem_iff]

theorem exclusive_append : Exclusive addrs (U ++ L) ↔
    Exclusive addrs U ∧ Exclusive addrs L ∧ Disjoint (owned addrs U) (owned addrs L) := by
  unfold Exclusive
  rw [pairwise_append]
  refine and_congr_right fun _ => and_congr_right fun _ => ?_
  constructor
  · intro h
    rw [Finset.disjoint_left]
    intro x hU hL
    obtain ⟨u, hu, hxu⟩ := mem_owned.1 hU
    obtain ⟨v, hv, hxv⟩ := mem_owned.1 hL
    exact disjoint_left.1 (h u hu v hv) hxu hxv
  · intro h u hu v hv
    rw [Finset.disjoint_left]
    intro x hxu hxv
    exact Finset.disjoint_left.1 h (mem_owned.2 ⟨u, hu, hxu⟩) (mem_owned.2 ⟨v, hv, hxv⟩)

theorem Exclusive.perm (h : Exclusive addrs L) (hp : L.Perm L') : Exclusive addrs L' :=
  (hp.pairwise_iff fun h => h.symm).1 h

/-! ## Taking and giving back -/

/-- Taking `T` out of the free set conserves exactly if `T` is what is handed out. -/
theorem conserved_take_iff (hF : F = F0 \ owned addrs L) (hU : owned addrs U ⊆ F) (hT : T ⊆ F) :
    F \ T = F0 \ owned addrs (U ++ L) ↔ T = owned addrs U := by
  have hsplit : F0 \ owned addrs (U ++ L) = F \ owned addrs U := by
    ext x
    simp only [hF, owned_append, mem_sdiff, mem_union]
    tauto
  rw [hsplit]
  constructor
  · intro h
    rw [← Finset.sdiff_sdiff_eq_self hT, h, Finset.sdiff_sdiff_eq_self hU]
  · exact fun h => congrArg _ h

/-- Giving blocks back conserves. -/
theorem conserved_give (hF : F = F0 \ owned addrs L) (hsub : owned addrs L ⊆ F0)
    (hex : Exclusive addrs L) (hp : (U ++ L').Perm L) :
    F ∪ owned addrs U = F0 \ owned addrs L' := by
  obtain ⟨-, -, hdisj⟩ := exclusive_append.1 (hex.perm hp.symm)
  rw [← owned_perm hp, owned_append] at hF hsub
  ext x
  have hin : x ∈ owned addrs U ∪ owned addrs L' → x ∈ F0 := fun h => hsub h
  have hout : x ∈ owned addrs U → x ∉ owned addrs L' := fun h => disjoint_left.1 hdisj h
  simp only [hF, mem_sdiff, mem_union] at hin ⊢
  tauto

/-! ## Systems -/

/-- An allocator, as its calls see it. -/
structure System (σ Call ι : Type) where
  /-- the free addresses -/
  free : σ → Finset ℕ
  /-- a call that returns: the blocks it hands out, and the allocator it leaves -/
  call : Call → σ → Option (List ι × σ)
  /-- the blocks a call gives back -/
  freed : Call → List ι

/-- An allocator and the blocks that are held. -/
structure State (σ ι : Type) where
  alloc : σ
  live : List ι

variable {σ Call : Type} [DecidableEq ι] (sys : System σ Call ι)

/-- A call, with the blocks held beside it. -/
def step (c : Call) (s : State σ ι) : Option (State σ ι) :=
  (sys.call c s.alloc).map fun r => ⟨r.2, r.1 ++ s.live.diff (sys.freed c)⟩

/-- Only blocks that are held are given back. -/
def Legal (c : Call) (s : State σ ι) : Prop := (sys.freed c).Subperm s.live

/-- The call returns. -/
def Returns (c : Call) (s : State σ ι) : Prop := (sys.call c s.alloc).isSome

/-- The free addresses are the initial ones without those of the blocks held. -/
def Conserved (addrs : ι → Finset ℕ) (F0 : Finset ℕ) (s : State σ ι) : Prop :=
  sys.free s.alloc = F0 \ owned addrs s.live

/-- **What a call does**: it hands out disjoint free blocks and takes `T` out of the free set, or it
gives blocks back. -/
inductive Effect (addrs : ι → Finset ℕ) (c : Call) (a : σ) (U : List ι) (a' : σ) (lossless : Prop) : Prop
  | take (T : Finset ℕ) (hfreed : sys.freed c = []) (hU : owned addrs U ⊆ sys.free a)
      (hex : Exclusive addrs U) (hT : T ⊆ sys.free a) (hfree : sys.free a' = sys.free a \ T)
      (hloss : lossless ↔ T = owned addrs U)
  | give (hU : U = []) (hfree : sys.free a' = sys.free a ∪ owned addrs (sys.freed c)) (hloss : lossless)

variable {sys} {good : σ → Prop} {lossless : Call → σ → Prop}

theorem mem_step {c : Call} {s s' : State σ ι} : s' ∈ step sys c s ↔
    ∃ U, sys.call c s.alloc = some (U, s'.alloc) ∧ s'.live = U ++ s.live.diff (sys.freed c) := by
  obtain ⟨a', L'⟩ := s'
  simp only [step, Option.mem_def, Option.map_eq_some_iff, Prod.exists, State.mk.injEq]
  constructor
  · rintro ⟨U, a, hcall, rfl, rfl⟩
    exact ⟨U, hcall, rfl⟩
  · rintro ⟨U, hcall, rfl⟩
    exact ⟨U, a', hcall, rfl, rfl⟩

/-- Legal frees split the blocks held. -/
theorem Legal.perm {c : Call} {s : State σ ι} (h : Legal sys c s) :
    (sys.freed c ++ s.live.diff (sys.freed c)).Perm s.live :=
  subperm_append_diff_self_of_count_le (subperm_ext_iff.1 h)

/-- The state of a conserving run. -/
structure Sound (sys : System σ Call ι) (good : σ → Prop) (addrs : ι → Finset ℕ) (F0 : Finset ℕ)
    (s : State σ ι) : Prop where
  good : good s.alloc
  conserved : Conserved sys addrs F0 s
  within : owned addrs s.live ⊆ F0
  exclusive : Exclusive addrs s.live

section Runs
variable (heffect : ∀ c a U a', good a → sys.call c a = some (U, a') →
  good a' ∧ Effect sys addrs c a U a' (lossless c a))
include heffect

/-- **One call** conserves exactly if it is lossless, and then keeps the blocks disjoint. -/
theorem Sound.step_iff {c : Call} {s s' : State σ ι} (hs : Sound sys good addrs F0 s)
    (hlegal : Legal sys c s) (hstep : s' ∈ step sys c s) :
    (Conserved sys addrs F0 s' ↔ lossless c s.alloc) ∧ (lossless c s.alloc → Sound sys good addrs F0 s') := by
  obtain ⟨U, hcall, hlive⟩ := mem_step.1 hstep
  obtain ⟨hgood, heff⟩ := heffect c s.alloc U s'.alloc hs.good hcall
  cases heff with
  | take T hfreed hU hex hT hfree hloss =>
    rw [hfreed, diff_nil] at hlive
    have hconserved : Conserved sys addrs F0 s' ↔ lossless c s.alloc := by
      unfold Conserved
      rw [hfree, hlive, conserved_take_iff hs.conserved hU hT, hloss]
    refine ⟨hconserved, fun hl => ⟨hgood, hconserved.2 hl, ?_, ?_⟩⟩
    · rw [hlive, owned_append]
      refine union_subset (hU.trans ?_) hs.within
      rw [show sys.free s.alloc = _ from hs.conserved]
      exact sdiff_subset
    · rw [hlive, exclusive_append]
      refine ⟨hex, hs.exclusive, disjoint_of_subset_left hU ?_⟩
      rw [show sys.free s.alloc = _ from hs.conserved]
      exact sdiff_disjoint
  | give hU hfree hloss =>
    have hperm := hlegal.perm
    rw [hU, nil_append] at hlive
    have hconserved : Conserved sys addrs F0 s' := by
      unfold Conserved
      rw [hfree, hlive]
      exact conserved_give hs.conserved hs.within hs.exclusive hperm
    refine ⟨iff_of_true hconserved hloss, fun _ => ⟨hgood, hconserved, ?_, ?_⟩⟩
    · refine Finset.Subset.trans ?_ hs.within
      rw [← owned_perm hperm, owned_append, hlive]
      exact subset_union_right
    · rw [hlive]
      exact (exclusive_append.1 (hs.exclusive.perm hperm.symm)).2.1

/-- **A run conserves exactly if every call is lossless.** -/
theorem safe_conserved_iff {a : σ} {calls : List Call} (hgood : good a)
    (hlegal : Along (step sys) (fun c s => Legal sys c s ∧ Returns sys c s) calls ⟨a, []⟩) :
    Safe (step sys) (Conserved sys addrs (sys.free a)) calls ⟨a, []⟩ ↔
      Along (step sys) (fun c s => lossless c s.alloc) calls ⟨a, []⟩ := by
  have hinit : Sound sys good addrs (sys.free a) ⟨a, []⟩ :=
    ⟨hgood, by unfold Conserved; rw [owned_nil, sdiff_empty], empty_subset _, List.Pairwise.nil⟩
  refine safe_iff_along_of_invariant (fun _ h => h.conserved) (fun c s hs hp => ?_)
    (fun c s s' hs hp hl hstep => (hs.step_iff heffect hp.1 hstep).2 hl) hinit hlegal
  obtain ⟨⟨U, a'⟩, hcall⟩ := isSome_iff_exists.1 hp.2
  have hstep : (⟨a', U ++ s.live.diff (sys.freed c)⟩ : State σ ι) ∈ step sys c s := mem_step.2 ⟨U, hcall, rfl⟩
  constructor
  · rintro ⟨s', hs', hc⟩
    cases mem_unique hs' hstep
    exact (hs.step_iff heffect hp.1 hstep).1.1 hc
  · exact fun hl => ⟨_, hstep, (hs.step_iff heffect hp.1 hstep).1.2 hl⟩
end Runs
end Pool
end Machinery
