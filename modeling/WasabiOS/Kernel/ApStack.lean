import WasabiOS.Kernel.TaskSystem
import WasabiOS.Machinery.Run

/-!
# Kernel/ApStack — handing a stack to a starting core

The boot processor leaves the end of a stack in `AP_STACK_PTR`, a starting core takes it from there.  Who owns a stack
is only in that word, which the two sides compute on their own: `alloc` stores the last address of the stack rounded
down to 16, `drop` looks for the address behind it.  A drop never finds its stack (`apStack_iff`).

The pages come from the page allocator, which does not hand out pages that are in use.
-/

open Machinery
namespace WasabiOS
open List Option Run

/-- The default number of pages(4K) used for the kernel stack -/
def DEFAULT_STACK_PAGE_COUNT : UInt64 := 20

/-- A stack for a starting core. -/
structure ApStack where
  pages : Stack
  count_eq : pages.pages.count = DEFAULT_STACK_PAGE_COUNT
  deriving DecidableEq

namespace ApStack

def STACK_ALIGN : ℕ := 16

/-- The end `alloc` stores. -/
def alignedEnd (stack : ApStack) : ℕ := alignDown stack.pages.endAddr STACK_ALIGN

/-- The end `drop` looks for. -/
def stackEnd (stack : ApStack) : ℕ := stack.pages.endAddr + 1

theorem endAddr_eq (stack : ApStack) : ∃ page, stack.pages.endAddr + 1 = 4096 * page ∧ 0 < page := by
  obtain ⟨page, hpage⟩ : 4096 ∣ stack.pages.startAddr := stack.pages.pages.firstPage.aligned
  refine ⟨page + 20, ?_, Nat.succ_pos _⟩
  rw [Stack.endAddr, stack.count_eq, hpage]
  change 4096 * page + 4096 * 20 - 1 + 1 = _
  omega

/-- Neither end is null, and they are never the same. -/
theorem alignedEnd_spec (stack : ApStack) : stack.alignedEnd ≠ 0 ∧ ∀ other : ApStack, stack.alignedEnd ≠ other.stackEnd := by
  obtain ⟨page, hpage, hpos⟩ := stack.endAddr_eq
  have hend : stack.alignedEnd = 4096 * page - 16 := by
    rw [alignedEnd, alignDown, STACK_ALIGN]
    omega
  refine ⟨by omega, fun other => ?_⟩
  obtain ⟨page', hpage', -⟩ := other.endAddr_eq
  rw [stackEnd, hend, hpage']
  omega
end ApStack

/-- `AP_STACK_PTR`, the stacks the boot processor has, those whose pages are mapped, and the ends cores have taken. -/
structure ApStartup where
  apStackPtr : ℕ
  kept : List ApStack
  mapped : List ApStack
  taken : List ℕ

inductive ApCall where
  /-- `ApStack::alloc`, with the pages the allocator found -/
  | alloc (stack : ApStack)
  /-- a starting core takes the stack, if there is one -/
  | take
  | drop (stack : ApStack)

namespace ApStartup

/-- The state after a call that is possible. -/
def step : ApCall → ApStartup → Option ApStartup
  | .alloc stack, s =>
    if ∃ other ∈ s.mapped, other.alignedEnd = stack.alignedEnd then none
    else if s.apStackPtr = 0 then
      some { s with apStackPtr := stack.alignedEnd, kept := stack :: s.kept, mapped := stack :: s.mapped }
    -- `StackAlreadyExists`: the pages are freed again
    else some s
  | .take, s => if s.apStackPtr = 0 then some s else some { s with apStackPtr := 0, taken := s.apStackPtr :: s.taken }
  | .drop stack, s =>
    if stack ∉ s.kept then none
    else if s.apStackPtr = stack.stackEnd then
      some { s with apStackPtr := 0, kept := s.kept.erase stack, mapped := s.mapped.erase stack }
    else some { s with kept := s.kept.erase stack }

/-- **What the word says**: a stack waits in it exactly while the boot processor has one that no core took; no two
cores took one stack; and the mapped stacks are those the boot processor has and those that were taken. -/
structure Sound (s : ApStartup) : Prop where
  waits : s.apStackPtr ≠ 0 ↔ ∃ stack ∈ s.kept, stack.alignedEnd ∉ s.taken
  once : s.taken.Nodup
  owned : ∀ stack, stack ∈ s.mapped ↔ stack ∈ s.kept ∨ stack ∈ s.mapped ∧ stack.alignedEnd ∈ s.taken

/-- A stack that no core took is dropped. -/
def Leaks (call : ApCall) (s : ApStartup) : Prop := ∃ stack ∈ s.kept, call = .drop stack ∧ stack.alignedEnd ∉ s.taken

/-- The stacks of the boot processor were taken, but for the one that waits. -/
structure Inv (s : ApStartup) : Prop where
  nodup : s.kept.Nodup
  inj : ∀ p ∈ s.mapped, ∀ q ∈ s.mapped, p.alignedEnd = q.alignedEnd → p = q
  mapped_of_mem : ∀ p ∈ s.kept, p ∈ s.mapped
  owned : ∀ p ∈ s.mapped, p ∈ s.kept ∨ p.alignedEnd ∈ s.taken
  once : s.taken.Nodup
  origin : ∀ a ∈ s.taken, ∃ p ∈ s.mapped, p.alignedEnd = a
  taken_or : ∀ p ∈ s.kept, p.alignedEnd ∈ s.taken ∨ p.alignedEnd = s.apStackPtr
  waiting : s.apStackPtr ≠ 0 → s.apStackPtr ∉ s.taken ∧ ∃ p ∈ s.kept, p.alignedEnd = s.apStackPtr

variable {s s' : ApStartup} {call : ApCall}

theorem Inv.sound (h : Inv s) : Sound s where
  waits := by
    refine ⟨fun hptr => ?_, ?_⟩
    · obtain ⟨hfree, p, hp, hend⟩ := h.waiting hptr
      exact ⟨p, hp, hend ▸ hfree⟩
    · rintro ⟨p, hp, hfree⟩
      exact (h.taken_or p hp).resolve_left hfree ▸ p.alignedEnd_spec.1
  once := h.once
  owned p := ⟨fun hp => (h.owned p hp).imp_right (⟨hp, ·⟩), fun hp => hp.elim (h.mapped_of_mem p) And.left⟩

/-- What a drop does: it never finds its stack. -/
theorem Inv.step_drop (h : Inv s) {stack : ApStack} (hmem : stack ∈ s.kept) :
    step (.drop stack) s = some { s with kept := s.kept.erase stack } := by
  have hne : s.apStackPtr ≠ stack.stackEnd := by
    intro heq
    by_cases hptr : s.apStackPtr = 0
    · rw [hptr, ApStack.stackEnd] at heq
      omega
    · obtain ⟨-, p, -, hp⟩ := h.waiting hptr
      exact p.alignedEnd_spec.2 stack (hp.trans heq)
  rw [step, if_neg (not_not.2 hmem), if_neg hne]

/-- **Every call hands the stacks on**, but for the drop of one that no core took. -/
theorem Inv.step (h : Inv s) (hleaks : ¬ Leaks call s) (hs : s' ∈ step call s) : Inv s' := by
  cases call with
  | alloc stack =>
    rw [mem_def, ApStartup.step] at hs
    split_ifs at hs with hused hptr
    · cases Option.some.inj hs
      have hnew : ∀ p ∈ s.mapped, p.alignedEnd ≠ stack.alignedEnd := fun p hp heq => hused ⟨p, hp, heq⟩
      have hfree : stack.alignedEnd ∉ s.taken := fun hmem => by
        obtain ⟨p, hp, heq⟩ := h.origin _ hmem
        exact hnew p hp heq
      refine ⟨nodup_cons.2 ⟨fun hmem => hnew stack (h.mapped_of_mem stack hmem) rfl, h.nodup⟩, ?_, ?_, ?_,
        h.once, fun a ha => ?_, ?_, fun _ => ⟨hfree, stack, mem_cons_self, rfl⟩⟩
      · refine forall_mem_cons.2 ⟨forall_mem_cons.2 ⟨fun _ => rfl, fun q hq heq => ?_⟩, fun p hp =>
          forall_mem_cons.2 ⟨fun heq => absurd heq (hnew p hp), h.inj p hp⟩⟩
        exact absurd heq.symm (hnew q hq)
      · exact forall_mem_cons.2 ⟨mem_cons_self, fun p hp => mem_cons_of_mem _ (h.mapped_of_mem p hp)⟩
      · exact forall_mem_cons.2 ⟨.inl mem_cons_self, fun p hp => (h.owned p hp).imp_left (mem_cons_of_mem _)⟩
      · obtain ⟨p, hp, heq⟩ := h.origin a ha
        exact ⟨p, mem_cons_of_mem _ hp, heq⟩
      · refine forall_mem_cons.2 ⟨.inr rfl, fun p hp => .inl ((h.taken_or p hp).resolve_right ?_)⟩
        rw [hptr]
        exact p.alignedEnd_spec.1
    · cases Option.some.inj hs
      exact h
  | take =>
    rw [mem_def, ApStartup.step] at hs
    split_ifs at hs with hptr
    · cases Option.some.inj hs
      exact h
    · cases Option.some.inj hs
      obtain ⟨hfree, p, hp, hend⟩ := h.waiting hptr
      refine ⟨h.nodup, h.inj, h.mapped_of_mem, fun q hq => (h.owned q hq).imp_right (mem_cons_of_mem _),
        nodup_cons.2 ⟨hfree, h.once⟩, ?_, fun q hq => .inl ?_, fun hne => absurd rfl hne⟩
      · exact forall_mem_cons.2 ⟨⟨p, h.mapped_of_mem p hp, hend⟩, h.origin⟩
      · exact (h.taken_or q hq).elim (mem_cons_of_mem _) fun heq => heq ▸ mem_cons_self
  | drop stack =>
    by_cases hmem : stack ∈ s.kept
    · rw [h.step_drop hmem] at hs
      cases Option.some.inj hs
      have htaken : stack.alignedEnd ∈ s.taken := by
        by_contra hfree
        exact hleaks ⟨stack, hmem, rfl, hfree⟩
      refine ⟨h.nodup.erase _, h.inj, fun p hp => h.mapped_of_mem p (mem_of_mem_erase hp), fun p hp => ?_,
        h.once, h.origin, fun p hp => h.taken_or p (mem_of_mem_erase hp), fun hptr => ?_⟩
      · by_cases heq : p = stack
        · exact .inr (heq ▸ htaken)
        · exact (h.owned p hp).imp_left (mem_erase_of_ne heq).2
      · obtain ⟨hfree, p, hp, hend⟩ := h.waiting hptr
        refine ⟨hfree, p, (mem_erase_of_ne ?_).2 hp, hend⟩
        rintro rfl
        exact hfree (hend ▸ htaken)
    · rw [mem_def, ApStartup.step, if_pos hmem] at hs
      cases hs

/-- The stack that was dropped stays mapped, and nobody has it. -/
theorem Inv.not_leaks (h : Inv s) (hnext : ∀ s' ∈ ApStartup.step call s, Sound s') : ¬ Leaks call s := by
  rintro ⟨stack, hmem, rfl, hfree⟩
  have hsound := hnext _ (h.step_drop hmem)
  rcases (hsound.owned stack).1 (h.mapped_of_mem stack hmem) with hleft | ⟨-, htaken⟩
  · exact h.nodup.not_mem_erase hleft
  · exact hfree htaken

/-- No stack yet. -/
def start : ApStartup := ⟨0, [], [], []⟩

theorem start_inv : Inv start := by constructor <;> simp [start]
end ApStartup

open ApStartup in
/-- **Stacks are handed over along a run exactly if none is dropped that no core took.** -/
theorem apStack_iff (calls : List ApCall) : Along step (fun call s => ∀ s' ∈ step call s, Sound s') calls start ↔
      Along step (fun call s => ¬ Leaks call s) calls start :=
  along_iff_of_invariant (I := Inv) (fun _ _ h => ⟨h.not_leaks, fun hleaks _ hs => (h.step hleaks hs).sound⟩)
    (fun _ _ h hsound _ hs => h.step (h.not_leaks hsound) hs) start_inv

/-- A stack on the pages from `0x10000` on. -/
def lowApStack : ApStack := ⟨⟨none, none, ⟨⟨⟨0x10000, .inl (by decide)⟩, by decide⟩, DEFAULT_STACK_PAGE_COUNT⟩⟩, rfl⟩

/-- **The last stack is dropped, as no core is left to take it**, and it stays mapped. -/
theorem not_apStack : ¬ Along ApStartup.step
    (fun call s => ∀ s' ∈ ApStartup.step call s, ApStartup.Sound s') [.alloc lowApStack, .drop lowApStack] .start := by
  intro h
  have halloc : ⟨lowApStack.alignedEnd, [lowApStack], [lowApStack], []⟩ ∈ ApStartup.step (.alloc lowApStack) .start := rfl
  have hinv : ApStartup.Inv _ := ApStartup.start_inv.step (by rintro ⟨_, hmem, -⟩; cases hmem) halloc
  exact hinv.not_leaks (h.2 _ halloc).1 ⟨lowApStack, mem_singleton_self _, rfl, not_mem_nil⟩
end WasabiOS
