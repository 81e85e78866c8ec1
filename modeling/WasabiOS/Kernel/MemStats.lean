import WasabiOS.Kernel.GuardedPages
import WasabiOS.Kernel.KernelHeap

/-!
# Kernel/MemStats — statistics about memory usage

With the feature `mem-stats` the page allocator and the kernel heap count what they hand out and take back.  The
histograms of sizes, which no snapshot reads, are left out.

The allocators that count do what those without counters do (`run_erases`, `CountedHeap.alloc_eq`), and the snapshots
of a run differ by what became live in between (`statsBalance`), unless

* pages with a guard are allocated, and not exactly one: a guard is counted as often as there are pages,
* an allocation on the heap fails, which is counted before it is tried.
-/

open Machinery Prog
namespace WasabiOS
open PageAllocator MemBlock List Function Run
variable {c : PageCall} {s t : Pool.State CountedPages MemBlock}

/-- `a + b` of two `u64` -/
def counterAdd (a b : ℕ) : Checked ℕ := if a + b < 2 ^ 64 then .ok (a + b) else .error .panic

/-- `a - b` of two `u64` -/
def counterSub (a b : ℕ) : Checked ℕ := if b ≤ a then .ok (a - b) else .error .panic

theorem counterAdd_eq_ok {a b c : ℕ} : counterAdd a b = .ok c ↔ a + b < 2 ^ 64 ∧ c = a + b := by
  unfold counterAdd
  split
  case isTrue h => rw [Except.ok.injEq, and_iff_right h, eq_comm]
  case isFalse h =>
    refine iff_of_false (fun hc => ?_) fun hc => h hc.1
    cases hc

/-! ## Pages -/

/-- Statistics about page allocations: a counter for each size. -/
structure PageFrameAllocStats where
  allocCount : PageSize → ℕ
  freeCount : PageSize → ℕ

namespace PageFrameAllocStats

/-- `PageFrameAllocStats::default` -/
def empty : PageFrameAllocStats := ⟨fun _ => 0, fun _ => 0⟩

/-- Adds to the counter of a size. -/
def bump (counter : PageSize → ℕ) (S : PageSize) (count : ℕ) : Checked (PageSize → ℕ) := do
  return Function.update counter S (← counterAdd (counter S) count)

/-- Register an allocation -/
def registerAlloc (S : PageSize) (count : UInt64) (st : PageFrameAllocStats) : Checked PageFrameAllocStats := do
  return { st with allocCount := ← bump st.allocCount S count.toNat }

/-- Register a free -/
def registerFree (S : PageSize) (count : UInt64) (st : PageFrameAllocStats) : Checked PageFrameAllocStats := do
  return { st with freeCount := ← bump st.freeCount S count.toNat }

/-- Creates a snapshot from the current stats -/
def snapshot (st : PageFrameAllocStats) : Checked (PageSize → ℕ) := do
  let count4k ← counterSub (st.allocCount .Size4KiB) (st.freeCount .Size4KiB)
  let count2m ← counterSub (st.allocCount .Size2MiB) (st.freeCount .Size2MiB)
  let count1g ← counterSub (st.allocCount .Size1GiB) (st.freeCount .Size1GiB)
  return fun
    | .Size4KiB => count4k
    | .Size2MiB => count2m
    | .Size1GiB => count1g
end PageFrameAllocStats

/-- The page allocator with its statistics. -/
structure CountedPages where
  allocator : PageAllocator
  stats : PageFrameAllocStats

namespace CountedPages
variable {S : PageSize} {α : Type}
  {headGuard tailGuard : Bool} {firstPage : Page S} {f : PageFrameAllocStats → Checked PageFrameAllocStats}
  {S' : PageSize} {m : Prog CountedPages MemError Unit} {count : UInt64} {index n start : ℕ}

/-- An operation of the page allocator. -/
def onAllocator (m : Prog PageAllocator MemError α) : Prog CountedPages MemError α :=
  zoom allocator (fun a s => { s with allocator := a }) m

/-- An update of the statistics. -/
def register (f : PageFrameAllocStats → Checked PageFrameAllocStats) : Prog CountedPages MemError Unit :=
  zoom stats (fun st s => { s with stats := st }) (stateful fun st => do return ((), ← f st))

/-- tries to allocate the given page in this allocator. -/
def tryAllocatePage (page : Page S) : Prog CountedPages MemError Unit := do
  onAllocator (PageAllocator.tryAllocatePage page)
  register (·.registerAlloc S 1)

/-- allocates a new page of virtual memory. -/
def allocatePage (S : PageSize) : Prog CountedPages MemError (Page S) := do
  let page ← onAllocator (PageAllocator.allocatePage S)
  register (·.registerAlloc S 1)
  return page

/-- allocates multiple consecutive pages of virtual memory. -/
def allocatePages (S : PageSize) (count : UInt64) : Prog CountedPages MemError (Pages S) := do
  let pages ← onAllocator (PageAllocator.allocatePages S count)
  register (·.registerAlloc S count)
  return pages

/-- Registers a guard page, if there is one: `count` of them. -/
def registerGuard (guard : Bool) (count : UInt64) : Prog CountedPages MemError Unit :=
  if guard then register (·.registerAlloc .Size4KiB count) else return ()

/-- allocate multiple consecutive pages, with additional guard pages. -/
def allocateGuardedPages (S : PageSize) (count : UInt64) (headGuard tailGuard : Bool) :
    Prog CountedPages MemError (GuardedPages S) :=
  if !headGuard && !tailGuard then do
    let pages ← allocatePages S count
    return ⟨none, none, pages⟩
  else do
    let size ← lift (guardedSize S count headGuard tailGuard)
    let align ← lift (guardedAlign S headGuard)
    let start ← onAllocator (allocateFrom size align)
    register (·.registerAlloc S count)
    registerGuard headGuard count
    registerGuard tailGuard count
    lift (guardedAt S count headGuard tailGuard start)

/-- frees a page -/
def freePage (page : Page S) : Prog CountedPages MemError Unit := do
  onAllocator (PageAllocator.freePage page)
  register (·.registerFree S 1)

/-- The loop of `free_pages`, from a page index on. -/
def freePagesFrom (firstPage : Page S) (index : ℕ) : ℕ → Prog CountedPages MemError Unit
  | 0 => return ()
  | n + 1 => do
    freePage (← lift (firstPage.add (UInt64.ofNat index)))
    freePagesFrom firstPage (index + 1) n

/-- frees multiple pages -/
def freePages (pages : Pages S) : Prog CountedPages MemError Unit := freePagesFrom pages.firstPage 0 pages.count.toNat

/-- Frees a guard page, if there is one. -/
def freeGuard : Option (Page S) → Prog CountedPages MemError Unit
  | some guard => freePage guard
  | none => return ()

/-- frees multiple pages -/
def freeGuardedPages (pages : GuardedPages S) : Prog CountedPages MemError Unit := do
  freePages pages.pages
  freeGuard pages.headGuard
  freeGuard pages.tailGuard

/-- A call, with the blocks it hands out. -/
def run : PageCall → Prog CountedPages MemError (List MemBlock)
  | .tryAllocatePage page => do
    tryAllocatePage page
    return [page.block]
  | .allocatePage S => do return [(← allocatePage S).block]
  | .allocatePages S count => do return (← allocatePages S count).blocks
  | .allocateGuardedPages S count headGuard tailGuard => do
    return (← allocateGuardedPages S count headGuard tailGuard).blocks
  | .freePage page => do
    freePage page
    return []
  | .freePages pages => do
    freePages pages
    return []
  | .freeGuardedPages pages => do
    freeGuardedPages pages
    return []

/-! ### The allocator beneath -/

theorem erases_onAllocator (m : Prog PageAllocator MemError α) : Prog.Erases allocator (onAllocator m) m :=
  erases_zoom fun _ _ => rfl

theorem wlp_register {s : CountedPages} {Q : Unit → CountedPages → Prop} {E : MemError → CountedPages → Prop} :
    (register f).wlp Q E s ↔ ∀ st, f s.stats = .ok st → Q () { s with stats := st } := by
  rw [register, wlp_zoom, wlp_stateful]
  constructor
  · intro h st hst
    exact h () st (by rw [hst]; rfl)
  · intro h u st hst
    obtain ⟨st', hf, hret⟩ := bind_eq_ok.1 hst
    cases hret
    exact h st hf

theorem erases_register (f : PageFrameAllocStats → Checked PageFrameAllocStats) :
    Prog.Erases allocator (register f) (pure ()) :=
  fun _ => wlp_register.2 fun _ _ => rfl

theorem erases_registerGuard (guard : Bool) (count : UInt64) :
    Prog.Erases allocator (registerGuard guard count) (pure ()) := by
  cases guard with
  | false => exact erases_pure ()
  | true => exact erases_register _

theorem erases_register_pure (a : α) : Prog.Erases allocator (do register f; return a) (pure a) := by
  have h := (erases_register f).bind fun _ => erases_pure a
  rwa [pure_bind] at h

theorem tryAllocatePage_erases (page : Page S) :
    Prog.Erases allocator (tryAllocatePage page) (PageAllocator.tryAllocatePage page) := by
  have h := (erases_onAllocator (PageAllocator.tryAllocatePage page)).bind fun _ => erases_register (·.registerAlloc S 1)
  rwa [bind_pure_unit] at h

theorem allocatePage_erases (S : PageSize) : Prog.Erases allocator (allocatePage S) (PageAllocator.allocatePage S) := by
  have h := (erases_onAllocator (PageAllocator.allocatePage S)).bind fun page =>
    erases_register_pure (f := (·.registerAlloc S 1)) page
  rwa [bind_pure] at h

theorem allocatePages_erases (S : PageSize) (count : UInt64) :
    Prog.Erases allocator (allocatePages S count) (PageAllocator.allocatePages S count) := by
  have h := (erases_onAllocator (PageAllocator.allocatePages S count)).bind fun pages =>
    erases_register_pure (f := (·.registerAlloc S count)) pages
  rwa [bind_pure] at h

theorem allocateGuardedPages_erases (S : PageSize) (count : UInt64) (headGuard tailGuard : Bool) :
    Prog.Erases allocator (allocateGuardedPages S count headGuard tailGuard)
      (PageAllocator.allocateGuardedPages S count headGuard tailGuard) := by
  unfold allocateGuardedPages PageAllocator.allocateGuardedPages
  by_cases hnone : (!headGuard && !tailGuard) = true
  · rw [if_pos hnone, if_pos hnone]
    exact (allocatePages_erases S count).bind fun _ => erases_pure _
  · rw [if_neg hnone, if_neg hnone]
    refine (erases_lift _).bind fun size => (erases_lift _).bind fun align => ?_
    refine (erases_onAllocator _).bind fun start => ?_
    have h := (erases_register (·.registerAlloc S count)).bind fun _ =>
      (erases_registerGuard headGuard count).bind fun _ =>
        (erases_registerGuard tailGuard count).bind fun _ => erases_lift (guardedAt S count headGuard tailGuard start)
    rwa [pure_bind, pure_bind, pure_bind] at h

theorem freePage_erases (page : Page S) : Prog.Erases allocator (freePage page) (PageAllocator.freePage page) := by
  have h := (erases_onAllocator (PageAllocator.freePage page)).bind fun _ => erases_register (·.registerFree S 1)
  rwa [bind_pure_unit] at h

theorem freePagesFrom_erases :
    Prog.Erases allocator (freePagesFrom firstPage index n) (PageAllocator.freePagesFrom firstPage index n) := by
  induction n generalizing index with
  | zero => exact erases_pure ()
  | succ n ih => exact (erases_lift _).bind fun page => (freePage_erases page).bind fun _ => ih

theorem freeGuard_erases (guard : Option (Page S)) :
    Prog.Erases allocator (freeGuard guard) (PageAllocator.freeGuard guard) := by
  cases guard with
  | none => exact erases_pure ()
  | some guard => exact freePage_erases guard

/-- The blocks of one size. -/
def ofSize (S : PageSize) (U : List MemBlock) : ℕ := U.countP fun u => u.size = S

theorem ofSize_append (S : PageSize) (U V : List MemBlock) : ofSize S (U ++ V) = ofSize S U + ofSize S V :=
  countP_append

theorem ofSize_singleton (S : PageSize) (u : MemBlock) : ofSize S [u] = if u.size = S then 1 else 0 := by
  rw [ofSize, countP_singleton]
  simp

theorem ofSize_consecutive : ofSize S' (consecutive S start n) = if S = S' then n else 0 := by
  induction n generalizing start with
  | zero => exact (ite_self 0).symm
  | succ n ih =>
    have hcons : ofSize S' (consecutive S start (n + 1))
        = ofSize S' [⟨S, start⟩] + ofSize S' (consecutive S (start + S.SIZE.toNat) n) :=
      ofSize_append S' [⟨S, start⟩] _
    rw [hcons, ih, ofSize_singleton]
    by_cases h : S = S'
    · rw [if_pos h, if_pos h, if_pos h, add_comm]
    · rw [if_neg h, if_neg h, if_neg h]

theorem ofSize_guardBlocks (guard : Option (Page .Size4KiB)) :
    ofSize S' (guardBlocks guard) = if guard.isSome ∧ .Size4KiB = S' then 1 else 0 := by
  cases guard with
  | none => simp [guardBlocks, ofSize]
  | some guard =>
    rw [guardBlocks, ofSize_singleton]
    exact if_congr (by simp [Aligned.block]) rfl rfl

/-- **The statistics count the blocks** `U` as allocated and the blocks `F` as freed. -/
structure Registers (st : PageFrameAllocStats) (U F : List MemBlock) (st' : PageFrameAllocStats) : Prop where
  alloc : ∀ S, st'.allocCount S = st.allocCount S + ofSize S U
  free : ∀ S, st'.freeCount S = st.freeCount S + ofSize S F

variable {st st' st'' : PageFrameAllocStats} {U V F G : List MemBlock}

theorem registers_nil : Registers st [] [] st := ⟨fun _ => rfl, fun _ => rfl⟩

theorem Registers.trans (h : Registers st U F st') (h' : Registers st' V G st'') :
    Registers st (U ++ V) (F ++ G) st'' := by
  refine ⟨fun S => ?_, fun S => ?_⟩
  · rw [h'.alloc, h.alloc, ofSize_append, add_assoc]
  · rw [h'.free, h.free, ofSize_append, add_assoc]

/-- Only the sizes of the blocks matter. -/
theorem Registers.congr (h : Registers st U F st') (hU : ∀ S, ofSize S V = ofSize S U)
    (hF : ∀ S, ofSize S G = ofSize S F) : Registers st V G st' :=
  ⟨fun S => by rw [h.alloc, hU], fun S => by rw [h.free, hF]⟩

theorem bump_eq_ok {counter counter' : PageSize → ℕ}
    (h : PageFrameAllocStats.bump counter S n = .ok counter') (S' : PageSize) :
    counter' S' = counter S' + if S = S' then n else 0 := by
  obtain ⟨m, hadd, hret⟩ := bind_eq_ok.1 h
  cases hret
  by_cases hS : S = S'
  · rw [if_pos hS, ← hS, update_self, (counterAdd_eq_ok.1 hadd).2]
  · rw [if_neg hS, update_of_ne (Ne.symm hS), add_zero]

theorem registerAlloc_registers {n : UInt64} (h : st.registerAlloc S n = .ok st')
    (hU : ∀ S', ofSize S' U = if S = S' then n.toNat else 0) : Registers st U [] st' := by
  obtain ⟨counter, hbump, hret⟩ := bind_eq_ok.1 h
  cases hret
  exact ⟨fun S' => (bump_eq_ok hbump S').trans (by rw [hU]), fun _ => rfl⟩

theorem registerFree_registers {n : UInt64} (h : st.registerFree S n = .ok st')
    (hF : ∀ S', ofSize S' F = if S = S' then n.toNat else 0) : Registers st [] F st' := by
  obtain ⟨counter, hbump, hret⟩ := bind_eq_ok.1 h
  cases hret
  exact ⟨fun _ => rfl, fun S' => (bump_eq_ok hbump S').trans (by rw [hF])⟩

/-- A program that counts the blocks it hands out, and nothing if it fails. -/
def CountsOut (m : Prog CountedPages MemError α) (out : α → List MemBlock) : Prop :=
  ∀ s, m.wlp (fun x s' => Registers s.stats (out x) [] s'.stats) (fun _ s' => s'.stats = s.stats) s

/-- A program that counts the blocks it gives back, and does not fail. -/
def CountsBack (m : Prog CountedPages MemError Unit) (freed : List MemBlock) : Prop :=
  ∀ s, m.wlp (fun _ s' => Registers s.stats [] freed s'.stats) (fun _ _ => False) s

/-- An operation of the allocator that is registered once it returned. -/
theorem countsOut_register {m : Prog PageAllocator MemError α} {n : UInt64} {out : α → List MemBlock}
    (hout : ∀ a, m.wlp (fun x _ => ∀ S', ofSize S' (out x) = if S = S' then n.toNat else 0) (fun _ _ => True) a) :
    CountsOut (do let x ← onAllocator m; register (·.registerAlloc S n); return x) out := by
  intro s
  rw [wlp_bind, onAllocator, wlp_zoom]
  refine wlp_mono (hout s.allocator) (fun x a hx => ?_) fun _ _ _ => rfl
  rw [wlp_bind, wlp_register]
  exact fun st hst => registerAlloc_registers hst hx

theorem ofSize_page (page : Page S) (S' : PageSize) :
    ofSize S' [page.block] = if S = S' then (1 : UInt64).toNat else 0 := ofSize_singleton S' page.block

theorem tryAllocatePage_counts (page : Page S) : CountsOut (tryAllocatePage page) fun _ => [page.block] := by
  intro s
  rw [tryAllocatePage, wlp_bind, onAllocator, wlp_zoom]
  refine wlp_of_forall (fun _ a => ?_) fun _ _ => rfl
  rw [wlp_register]
  exact fun st hst => registerAlloc_registers hst (ofSize_page page)

theorem allocatePage_counts (S : PageSize) : CountsOut (allocatePage S) fun page => [page.block] :=
  countsOut_register fun _ => wlp_of_forall (fun page _ => ofSize_page page) fun _ _ => trivial

theorem allocatePages_counts (S : PageSize) (count : UInt64) : CountsOut (allocatePages S count) Pages.blocks := by
  refine countsOut_register fun a => ?_
  rw [PageAllocator.allocatePages, wlp_bind, wlp_lift]
  intro size _
  rw [wlp_bind]
  refine wlp_of_forall (fun start _ => ?_) fun _ _ => trivial
  rw [wlp_lift]
  intro pages hpages S'
  obtain ⟨page, -, hret⟩ := bind_eq_ok.1 hpages
  cases hret
  exact ofSize_consecutive

/-- A guard page somewhere, if there is one. -/
def someGuard (guard : Bool) : List MemBlock := if guard then [⟨.Size4KiB, 0⟩] else []

theorem ofSize_someGuard {guard : Bool} :
    ofSize S' (someGuard guard) = if guard = true ∧ .Size4KiB = S' then 1 else 0 := by
  cases guard with
  | false => exact (if_neg fun h => Bool.false_ne_true h.1).symm
  | true =>
    refine (ofSize_singleton S' _).trans ?_
    exact if_congr (and_iff_right rfl).symm rfl rfl

theorem registerGuard_registers (guard : Bool) (hone : guard = true → count = 1) (s : CountedPages) :
    (registerGuard guard count).wlp (fun _ s' => Registers s.stats (someGuard guard) [] s'.stats)
      (fun _ _ => False) s := by
  cases guard with
  | false => exact registers_nil
  | true =>
    rw [hone rfl, registerGuard, if_pos rfl, wlp_register]
    exact fun st hst => registerAlloc_registers hst (ofSize_singleton · _)

/-- The sizes of pages with guards. -/
theorem ofSize_laidOut {g : GuardedPages S} (h : g.LaidOut count headGuard tailGuard start) : ofSize S' g.blocks =
      ofSize S' (consecutive S 0 count.toNat ++ (someGuard headGuard ++ someGuard tailGuard)) := by
  have hsome : ∀ (guard : Option (Page .Size4KiB)) (b : Bool) (x : ℕ),
      guard.map (fun u => u.start.toNat) = (if b then some x else none) → guard.isSome = b := by
    intro guard b x hmap
    rw [← Option.isSome_map, hmap]
    cases b with
    | false => rfl
    | true => rfl
  have hhead := hsome _ _ _ h.head
  have htail := hsome _ _ _ h.tail
  rw [GuardedPages.blocks, Pages.blocks, h.count_eq]
  simp only [ofSize_append, ofSize_guardBlocks, ofSize_someGuard, ofSize_consecutive, hhead, htail]
  omega

/-- **Pages with guards are counted right** if there is one page, or no guard. -/
theorem allocateGuardedPages_counts (hone : headGuard = true ∨ tailGuard = true → count = 1) :
    CountsOut (allocateGuardedPages S count headGuard tailGuard) GuardedPages.blocks := by
  intro s
  unfold allocateGuardedPages
  by_cases hnone : (!headGuard && !tailGuard) = true
  · rw [if_pos hnone, wlp_bind]
    refine wlp_mono (allocatePages_counts S count s) (fun pages s' h => ?_) fun _ _ h => h
    rw [wlp_pure, GuardedPages.blocks, guardBlocks, nil_append, append_nil]
    exact h
  rw [if_neg hnone, wlp_bind, wlp_lift]
  intro size _
  rw [wlp_bind, wlp_lift]
  intro align _
  rw [wlp_bind, onAllocator, wlp_zoom]
  refine wlp_of_forall (fun start a => ?_) fun _ _ => rfl
  rw [wlp_bind, wlp_register]
  intro st hst
  have hpages : Registers s.stats (consecutive S 0 count.toNat) [] st :=
    registerAlloc_registers hst fun _ => ofSize_consecutive
  rw [wlp_bind]
  refine wlp_mono (registerGuard_registers headGuard (fun h => hone (.inl h)) _) (fun _ s1 hhead => ?_)
    fun _ _ => False.elim
  rw [wlp_bind]
  refine wlp_mono (registerGuard_registers tailGuard (fun h => hone (.inr h)) s1) (fun _ s2 htail => ?_)
    fun _ _ => False.elim
  rw [wlp_lift]
  intro g hg
  have hlaid : g.LaidOut count headGuard tailGuard start.asU64.toNat := placed_laidOut ((if_neg hnone).trans hg)
  exact (hpages.trans (hhead.trans htail)).congr (fun S' => ofSize_laidOut hlaid) fun _ => rfl

theorem CountsBack.bind {m' : Prog CountedPages MemError Unit} (h : CountsBack m F)
    (h' : CountsBack m' G) : CountsBack (do m; m') (F ++ G) := by
  intro s
  rw [wlp_bind]
  refine wlp_mono (h s) (fun _ s1 h1 => ?_) fun _ _ => False.elim
  exact wlp_mono (h' s1) (fun _ s2 h2 => h1.trans h2) fun _ _ => False.elim

theorem CountsBack.congr (h : CountsBack m F) (hG : ∀ S, ofSize S G = ofSize S F) : CountsBack m G :=
  fun s => wlp_mono (h s) (fun _ _ hs => hs.congr (fun _ => rfl) hG) fun _ _ => False.elim

theorem freePage_counts (page : Page S) : CountsBack (freePage page) [page.block] := by
  intro s
  rw [freePage, wlp_bind, onAllocator, wlp_zoom, PageAllocator.freePage, wlp_bind, wlp_lift]
  intro range _
  rw [PageAllocator.wlp_onVaddrs]
  intro _ v _
  rw [wlp_register]
  exact fun st hst => registerFree_registers hst (ofSize_page page)

theorem freePagesFrom_counts : CountsBack (freePagesFrom firstPage index n) (consecutive S start n) := by
  induction n generalizing index start with
  | zero => exact fun s => registers_nil
  | succ n ih =>
    intro s
    rw [freePagesFrom, wlp_bind, wlp_lift]
    intro page _
    have hrest : CountsBack (freePagesFrom firstPage (index + 1) n) (consecutive S (start + S.SIZE.toNat) n) := ih
    refine ((freePage_counts page).bind hrest).congr (fun S' => ?_) s
    exact (ofSize_append S' [⟨S, start⟩] _).trans (ofSize_append S' [page.block] _).symm

theorem freePages_counts (pages : Pages S) : CountsBack (freePages pages) pages.blocks := freePagesFrom_counts

theorem freeGuard_counts (guard : Option (Page S)) : CountsBack (freeGuard guard) (guardBlocks guard) := by
  cases guard with
  | none => exact fun s => registers_nil
  | some guard => exact freePage_counts guard

theorem freeGuardedPages_counts (pages : GuardedPages S) : CountsBack (freeGuardedPages pages) pages.blocks := by
  have h := (freePages_counts pages.pages).bind
    ((freeGuard_counts pages.headGuard).bind (freeGuard_counts pages.tailGuard))
  refine h.congr fun S' => ?_
  simp only [GuardedPages.blocks, ofSize_append]
  omega
end CountedPages

/-- A guard is counted once. -/
def PageCall.Single : PageCall → Prop
  | .allocateGuardedPages _ count headGuard tailGuard => headGuard = true ∨ tailGuard = true → count = 1
  | _ => True

namespace CountedPages

/-- **What a call counts.** -/
theorem run_counts (hsingle : c.Single) (s : CountedPages) :
    (run c).wlp (fun U s' => Registers s.stats U c.freed s'.stats)
      (fun _ s' => s'.stats = s.stats ∧ c.freed = []) s := by
  have hout : ∀ {α : Type} {m : Prog CountedPages MemError α} {out : α → List MemBlock}, CountsOut m out →
      (do return out (← m)).wlp (fun U s' => Registers s.stats U [] s'.stats)
        (fun _ s' => s'.stats = s.stats ∧ ([] : List MemBlock) = []) s := by
    intro α m out h
    rw [wlp_bind]
    exact wlp_mono (h s) (fun _ _ h => h) fun _ _ h => ⟨h, rfl⟩
  have hback : ∀ {m : Prog CountedPages MemError Unit} {F : List MemBlock}, CountsBack m F →
      (do m; return ([] : List MemBlock)).wlp (fun U s' => Registers s.stats U F s'.stats)
        (fun _ s' => s'.stats = s.stats ∧ F = []) s := by
    intro m F h
    rw [wlp_bind]
    exact wlp_mono (h s) (fun _ _ h => h) fun _ _ => False.elim
  cases c with
  | tryAllocatePage page => exact hout (tryAllocatePage_counts page)
  | allocatePage S => exact hout (allocatePage_counts S)
  | allocatePages S count => exact hout (allocatePages_counts S count)
  | allocateGuardedPages S count headGuard tailGuard => exact hout (allocateGuardedPages_counts hsingle)
  | freePage page => exact hback (freePage_counts page)
  | freePages pages => exact hback (freePages_counts pages)
  | freeGuardedPages pages => exact hback (freeGuardedPages_counts pages)
end CountedPages

/-! ### Runs of the page allocator -/

/-- The page allocator with its statistics, as its calls see it. -/
def countedSystem : Pool.System CountedPages PageCall MemBlock :=
  system (fun s => s.allocator.vaddrs) CountedPages.run PageCall.freed

/-- **The difference of two snapshots is the change in the pages held**, for each size. -/
def PageDifference (s t : Pool.State CountedPages MemBlock) : Prop :=
  ∃ p q, s.alloc.stats.snapshot = .ok p ∧ t.alloc.stats.snapshot = .ok q ∧
    ∀ S, (q S : ℤ) - p S = CountedPages.ofSize S t.live - CountedPages.ofSize S s.live

/-- Where the same pages are held again, the snapshots are equal. -/
theorem PageDifference.snapshot_eq (h : PageDifference s t)
    (hlive : t.live.Perm s.live) : s.alloc.stats.snapshot = t.alloc.stats.snapshot := by
  obtain ⟨p, q, hp, hq, hcount⟩ := h
  rw [hp, hq]
  refine congrArg Except.ok (funext fun S => ?_)
  have hsame : CountedPages.ofSize S t.live = CountedPages.ofSize S s.live := hlive.countP_eq _
  have hdiff := hcount S
  omega

namespace CountedPages

/-- The pages held are those allocated and not freed. -/
def Balanced (s : Pool.State CountedPages MemBlock) : Prop :=
  ∀ S, s.alloc.stats.allocCount S = s.alloc.stats.freeCount S + ofSize S s.live

theorem Balanced.snapshot (h : Balanced s) : ∃ p, s.alloc.stats.snapshot = .ok p ∧ ∀ S, p S = ofSize S s.live := by
  have hsub : ∀ S, counterSub (s.alloc.stats.allocCount S) (s.alloc.stats.freeCount S) = .ok (ofSize S s.live) := by
    intro S
    rw [h S, counterSub, if_pos le_self_add, Nat.add_sub_cancel_left]
  refine ⟨_, ?_, fun S => rfl⟩
  rw [PageFrameAllocStats.snapshot, hsub, hsub, hsub]
  refine congrArg Except.ok (funext fun S => ?_)
  cases S with
  | Size4KiB => rfl
  | Size2MiB => rfl
  | Size1GiB => rfl

theorem Balanced.difference (hs : Balanced s) (ht : Balanced t) :
    PageDifference s t := by
  obtain ⟨p, hp, hps⟩ := hs.snapshot
  obtain ⟨q, hq, hqt⟩ := ht.snapshot
  exact ⟨p, q, hp, hq, fun S => by rw [hps, hqt]⟩

theorem Balanced.step {s' : Pool.State CountedPages MemBlock} (h : Balanced s)
    (hlegal : Pool.Legal countedSystem c s) (hsingle : c.Single) (hs' : s' ∈ Pool.step countedSystem c s) :
    Balanced s' := by
  obtain ⟨U, hcall, hlive⟩ := Pool.mem_step.1 hs'
  have hperm : ∀ S, ofSize S s.live = ofSize S c.freed + ofSize S (s.live.diff c.freed) := by
    intro S
    rw [← ofSize_append]
    exact (hlegal.perm.countP_eq _).symm
  have hregisters : Registers s.alloc.stats U c.freed s'.alloc.stats := by
    have hc := run_counts hsingle s.alloc
    unfold Prog.wlp at hc
    simp only [countedSystem, system] at hcall
    cases hrun : run c s.alloc with
    | ok V b =>
      rw [hrun] at hc hcall
      cases hcall
      exact hc
    | err e b =>
      rw [hrun] at hc hcall
      cases hcall
      rw [hc.2, hc.1]
      exact registers_nil
    | fault f =>
      rw [hrun] at hcall
      cases hcall
  intro S
  have hbalanced := h S
  have hsplit := hperm S
  rw [hregisters.alloc, hregisters.free, hlive, ofSize_append]
  change _ = _ + (_ + ofSize S (s.live.diff c.freed))
  omega
end CountedPages

/-! ## The heap -/

/-- Statistics about the heap usage -/
structure HeapStats where
  /-- number of times there was no slab allocator for an allocation -/
  slabMisses : ℕ
  /-- bytes used within the heap -/
  used : ℕ
  /-- total number of bytes ever allocated. -/
  totalAlloc : ℕ
  /-- total number of allocations -/
  allocCount : ℕ
  /-- total number of bytes ever freed -/
  totalFree : ℕ
  /-- total number of frees -/
  freeCount : ℕ
  deriving DecidableEq, Repr

/-- Statistics about the heap usage that is comparable -/
structure HeapStatSnapshot where
  /-- number of bytes used within the heap -/
  used : ℕ
  /-- number of allocations that have not been freed -/
  freesOutstanding : ℕ
  deriving DecidableEq, Repr

namespace HeapStats

/-- Creates a new empty stats object. -/
def new : HeapStats := ⟨0, 0, 0, 0, 0, 0⟩

/-- Register an allocation -/
def registerAlloc (bytes : ℕ) (st : HeapStats) : Checked HeapStats := do
  let used ← counterAdd st.used bytes
  let allocCount ← counterAdd st.allocCount 1
  return { st with used, totalAlloc := (st.totalAlloc + bytes) % 2 ^ 64, allocCount }

/-- Register that an allocation could not be fullfilled by a slab -/
def registerSlabMiss (st : HeapStats) : Checked HeapStats := do
  return { st with slabMisses := ← counterAdd st.slabMisses 1 }

/-- Register a free -/
def registerFree (bytes : ℕ) (st : HeapStats) : Checked HeapStats :=
  if st.used ≥ bytes then do
    let freeCount ← counterAdd st.freeCount 1
    return { st with used := st.used - bytes, totalFree := (st.totalFree + bytes) % 2 ^ 64, freeCount }
  else .error .panic

/-- Creates a snapshot from the current stats -/
def snapshot (st : HeapStats) : Checked HeapStatSnapshot := do
  return ⟨st.used, ← counterSub st.allocCount st.freeCount⟩
end HeapStats

/-- The heap with its statistics, once there are any. -/
structure CountedHeap (H : Type) where
  heap : KernelHeap H
  stats : Option HeapStats

namespace CountedHeap
variable {H : Type} {lo hi : ℕ} {α : Type}

/-- An operation of the heap. -/
def onHeap (m : Prog (KernelHeap H) HeapError α) : Prog (CountedHeap H) HeapError α :=
  zoom heap (fun h s => { s with heap := h }) m

/-- An update of the statistics, if there are any. -/
def register (f : HeapStats → Checked HeapStats) : Prog (CountedHeap H) HeapError Unit :=
  zoom stats (fun st s => { s with stats := st }) (stateful fun stats =>
    match stats with
    | none => return ((), none)
    | some st => do return ((), some (← f st)))

variable (A : Allocator H lo hi)

/-- allocate memory for a layout -/
def alloc (layout : Layout) : Prog (CountedHeap H) HeapError ℕ := do
  if layout.size = 0 then Prog.throw .zeroSizeAllocation
  else
    register (·.registerAlloc layout.size)
    let s ← Prog.get
    match s.heap.slabFor layout.size with
    | some i => onHeap (KernelHeap.onSlab i (SlabAllocator.alloc A layout))
    | none =>
      register HeapStats.registerSlabMiss
      onHeap (KernelHeap.linkedAlloc A layout)

/-- free a pointer with a given layout -/
def free (ptr : ℕ) (layout : Layout) : Prog (CountedHeap H) HeapError Unit := do
  let s ← Prog.get
  if ptr < s.heap.start ∨ s.heap.end_ < ptr + layout.size then Prog.throw (.ptrNotAllocated ptr)
  else
    register (·.registerFree layout.size)
    match s.heap.slabFor layout.size with
    | some i => onHeap (KernelHeap.onSlab i (SlabAllocator.free A ptr layout))
    | none => onHeap (Prog.modify fun h => h.setLinkedHeap (A.free ptr layout h.linkedHeap))

/-! ### The heap beneath -/

variable {A} {s : CountedHeap H} {st st' : HeapStats} {layout : Layout} {ptr : ℕ}

theorem register_apply {f : HeapStats → Checked HeapStats} (hst : s.stats = some st) (hf : f st = .ok st') :
    register f s = .ok () { s with stats := some st' } := by
  obtain ⟨h, stats⟩ := s
  cases hst
  refine zoom_ok (stateful_eq_ok.2 ?_)
  simp only [hf, ok_bind]
  rfl

theorem onHeap_congr {m m' : Prog (KernelHeap H) HeapError α} (h : m s.heap = m' s.heap) :
    onHeap m s = onHeap m' s := by simp only [onHeap, zoom, h]

theorem onHeap_ok {m : Prog (KernelHeap H) HeapError α} {a : α} {h h' : KernelHeap H} {stats : Option HeapStats}
    (hm : m h = .ok a h') : onHeap m ⟨h, stats⟩ = .ok a ⟨h', stats⟩ := zoom_ok hm

/-- What is registered for an allocation: that it is made, and whether there is a slab allocator for it. -/
def registered (heap : KernelHeap H) (layout : Layout) (st : HeapStats) : Checked HeapStats := do
  let st ← st.registerAlloc layout.size
  match heap.slabFor layout.size with
  | some _ => return st
  | none => st.registerSlabMiss

/-- **An allocation that can be registered** does what it does without the counters. -/
theorem alloc_eq (hsize : layout.size ≠ 0) (hst : s.stats = some st) (hreg : registered s.heap layout st = .ok st') :
    alloc A layout s = onHeap (KernelHeap.alloc A layout) { s with stats := some st' } := by
  obtain ⟨st1, hfirst, hrest⟩ := bind_eq_ok.1 hreg
  rw [alloc, if_neg hsize, bind_apply, register_apply hst hfirst, andThen_ok, bind_apply, get_apply, andThen_ok]
  cases hclass : s.heap.slabFor layout.size with
  | some i =>
    simp only [hclass] at hrest ⊢
    cases hrest
    refine onHeap_congr ?_
    rw [KernelHeap.alloc, if_neg hsize, bind_apply, get_apply, andThen_ok, hclass]
  | none =>
    simp only [hclass] at hrest ⊢
    rw [bind_apply, register_apply rfl hrest, andThen_ok]
    refine onHeap_congr ?_
    rw [KernelHeap.alloc, if_neg hsize, bind_apply, get_apply, andThen_ok, hclass]

theorem alloc_of_zero (hsize : layout.size = 0) : alloc A layout s = .err .zeroSizeAllocation s := by
  rw [alloc, if_pos hsize]
  rfl

/-- **A free that can be registered** does what it does without the counters. -/
theorem free_eq (hin : ¬ (ptr < s.heap.start ∨ s.heap.end_ < ptr + layout.size)) (hst : s.stats = some st)
    (hreg : st.registerFree layout.size = .ok st') :
    free A ptr layout s = onHeap (KernelHeap.free A ptr layout) { s with stats := some st' } := by
  rw [free, bind_apply, get_apply, andThen_ok, if_neg hin, bind_apply, register_apply hst hreg, andThen_ok]
  cases hclass : s.heap.slabFor layout.size with
  | some _ | none =>
    refine onHeap_congr ?_
    rw [KernelHeap.free, bind_apply, get_apply, andThen_ok, if_neg hin, hclass]

theorem free_of_lt (hend : s.heap.end_ < ptr + layout.size) : free A ptr layout s = .err (.ptrNotAllocated ptr) s := by
  rw [free, bind_apply, get_apply, andThen_ok, if_pos (.inr hend)]
  rfl
end CountedHeap

/-! ### Runs of the heap -/

/-- A heap with statistics, and the allocations its callers hold. -/
structure CountedSystem (H : Type) where
  heap : CountedHeap H
  live : List Allocation

/-- The bytes of the allocations. -/
def liveBytes (live : List Allocation) : ℕ := (live.map fun e => e.layout.size).sum

/-- **The difference of two snapshots is the change in the live allocations**, in bytes and in number. -/
def HeapDifference {H : Type} (s t : CountedSystem H) : Prop :=
  ∃ st st' p q, s.heap.stats = some st ∧ t.heap.stats = some st' ∧ st.snapshot = .ok p ∧ st'.snapshot = .ok q ∧
    (q.used : ℤ) - p.used = liveBytes t.live - liveBytes s.live ∧
    (q.freesOutstanding : ℤ) - p.freesOutstanding = t.live.length - s.live.length

/-- Where the same allocations are live again, the snapshots are equal. -/
theorem HeapDifference.snapshot_eq {H : Type} {s t : CountedSystem H} (h : HeapDifference s t)
    (hlive : t.live.Perm s.live) :
    s.heap.stats.map HeapStats.snapshot = t.heap.stats.map HeapStats.snapshot := by
  obtain ⟨st, st', ⟨used, out⟩, ⟨used', out'⟩, hst, hst', hp, hq, hused, hout⟩ := h
  have hbytes : liveBytes t.live = liveBytes s.live := (hlive.map _).sum_eq
  have hlength := hlive.length_eq
  have hsame : used = used' ∧ out = out' := by
    dsimp only at hused hout
    omega
  rw [hst, hst', Option.map_some, Option.map_some, hp, hq, hsame.1, hsame.2]

namespace CountedSystem
variable {H : Type} {lo hi : ℕ} (A : Allocator H lo hi) {layout : Layout}

/-- The state after a call, if it did not panic. -/
def step : HeapCall → CountedSystem H → Option (CountedSystem H)
  | .alloc layout, s =>
    match CountedHeap.alloc A layout s.heap with
    | .ok ptr heap => some ⟨heap, ⟨ptr, layout⟩ :: s.live⟩
    | .err _ heap => some ⟨heap, s.live⟩
    | .fault _ => none
  | .free ptr layout, s =>
    match CountedHeap.free A ptr layout s.heap with
    | .ok () heap => some ⟨heap, s.live.erase ⟨ptr, layout⟩⟩
    | .err _ heap => some ⟨heap, s.live⟩
    | .fault _ => none

/-- A `free` matches a live allocation. -/
def Legal : HeapCall → CountedSystem H → Prop
  | .alloc _, _ => True
  | .free ptr layout, s => ⟨ptr, layout⟩ ∈ s.live

/-- **An allocation that is counted succeeds**, and the counters have room for it. -/
def Countable : HeapCall → CountedSystem H → Prop
  | .alloc layout, s => 0 < layout.size → s.heap.heap.CanAlloc A layout ∧ ∀ st ∈ s.heap.stats,
      st.used + layout.size < 2 ^ 64 ∧ st.allocCount + 1 < 2 ^ 64 ∧ st.slabMisses + 1 < 2 ^ 64
  | .free _ _, _ => True

/-- The statistics are those of the live allocations. -/
structure Balanced (s : CountedSystem H) : Prop where
  heap : ∃ cuts blocks, HeapInv A s.heap.heap s.live cuts blocks
  stats : ∃ st, s.heap.stats = some st ∧ st.used = liveBytes s.live ∧
    st.allocCount = st.freeCount + s.live.length ∧ st.allocCount < 2 ^ 64

variable {A} {s t : CountedSystem H}

theorem Balanced.difference (hs : Balanced A s) (ht : Balanced A t) : HeapDifference s t := by
  have hsnapshot : ∀ (st : HeapStats) (n : ℕ), st.allocCount = st.freeCount + n → st.snapshot = .ok ⟨st.used, n⟩ := by
    intro st n hcount
    rw [HeapStats.snapshot, hcount, counterSub, if_pos le_self_add, Nat.add_sub_cancel_left]
    rfl
  obtain ⟨st, hst, hused, hcount, -⟩ := hs.stats
  obtain ⟨st', hst', hused', hcount', -⟩ := ht.stats
  refine ⟨st, st', _, _, hst, hst', hsnapshot st _ hcount, hsnapshot st' _ hcount', ?_, rfl⟩
  rw [hused, hused']

/-- Counters with room are raised, and those of the frees stay. -/
theorem registered_ok (heap : KernelHeap H) {st : HeapStats}
    (hused : st.used + layout.size < 2 ^ 64) (hcount : st.allocCount + 1 < 2 ^ 64)
    (hmisses : st.slabMisses + 1 < 2 ^ 64) :
    ∃ st', CountedHeap.registered heap layout st = .ok st' ∧ st'.used = st.used + layout.size ∧
      st'.allocCount = st.allocCount + 1 ∧ st'.freeCount = st.freeCount := by
  have halloc : st.registerAlloc layout.size = .ok { st with
      used := st.used + layout.size, totalAlloc := (st.totalAlloc + layout.size) % 2 ^ 64,
      allocCount := st.allocCount + 1 } := by
    rw [HeapStats.registerAlloc, counterAdd_eq_ok.2 ⟨hused, rfl⟩, counterAdd_eq_ok.2 ⟨hcount, rfl⟩]
    rfl
  rw [CountedHeap.registered, halloc, ok_bind]
  cases heap.slabFor layout.size with
  | some i => exact ⟨_, rfl, rfl, rfl, rfl⟩
  | none =>
    simp only [HeapStats.registerSlabMiss, counterAdd_eq_ok.2 ⟨hmisses, rfl⟩, ok_bind]
    exact ⟨_, rfl, rfl, rfl, rfl⟩

theorem Balanced.alloc (hs : Balanced A s) (hhi : hi ≤ 2 ^ 64)
    (hcount : Countable A (.alloc layout) s) : ∃ s' ∈ step A (.alloc layout) s, Balanced A s' := by
  by_cases hzero : layout.size = 0
  · refine ⟨s, ?_, hs⟩
    rw [step, CountedHeap.alloc_of_zero hzero]
    rfl
  obtain ⟨hcan, hroom⟩ := hcount (pos_of_ne_zero hzero)
  obtain ⟨st, hst, hused, hbalance, -⟩ := hs.stats
  obtain ⟨hroomUsed, hroomCount, hroomMisses⟩ := hroom st hst
  obtain ⟨st', hreg, hused', hcount', hfree'⟩ := registered_ok s.heap.heap hroomUsed hroomCount hroomMisses
  obtain ⟨cuts, blocks, hinv⟩ := hs.heap
  have hwp := hinv.alloc_wp hhi layout
  rw [step, CountedHeap.alloc_eq hzero hst hreg]
  cases hrun : KernelHeap.alloc A layout s.heap.heap with
  | ok ptr heap =>
    obtain ⟨hinv', -⟩ := (wp_of_ok hrun).1 hwp
    rw [CountedHeap.onHeap_ok hrun]
    refine ⟨_, rfl, hinv', st', rfl, ?_, ?_, hcount' ▸ hroomCount⟩
    · rw [hused', hused, liveBytes, liveBytes, map_cons, sum_cons, add_comm]
    · rw [hcount', hfree', hbalance, length_cons, add_assoc]
  | err e heap => exact absurd hcan (((wp_of_err hrun).1 hwp).2.resolve_left hzero)
  | fault f =>
    rw [Prog.wp, hrun] at hwp
    exact hwp.elim

theorem Balanced.free (hs : Balanced A s) (hhi : hi ≤ 2 ^ 64) {ptr : ℕ}
    (hlive : ⟨ptr, layout⟩ ∈ s.live) : ∃ s' ∈ step A (.free ptr layout) s, Balanced A s' := by
  by_cases hend : s.heap.heap.end_ < ptr + layout.size
  · refine ⟨s, ?_, hs⟩
    rw [step, CountedHeap.free_of_lt hend]
    rfl
  obtain ⟨st, hst, hused, hbalance, hlt⟩ := hs.stats
  obtain ⟨cuts, blocks, hinv⟩ := hs.heap
  have hbytes : layout.size + liveBytes (s.live.erase ⟨ptr, layout⟩) = liveBytes s.live :=
    sum_map_erase (fun e : Allocation => e.layout.size) hlive
  have hlength := length_erase_add_one hlive
  have hstart : s.heap.heap.start ≤ ptr := hinv.layered.start_eq ▸ (hinv.backed _ hlive).inside.1
  have hreg : st.registerFree layout.size = .ok { st with
      used := st.used - layout.size, totalFree := (st.totalFree + layout.size) % 2 ^ 64,
      freeCount := st.freeCount + 1 } := by
    rw [HeapStats.registerFree, if_pos (by omega), counterAdd_eq_ok.2 ⟨by omega, rfl⟩]
    rfl
  obtain ⟨u, heap, hrun, hinv'⟩ : ∃ u heap, KernelHeap.free A ptr layout s.heap.heap = .ok u heap ∧ _ :=
    wp_false_iff.1 (hinv.free_wp hhi hlive (Nat.le_of_not_lt hend))
  rw [step, CountedHeap.free_eq (not_or.2 ⟨hstart.not_gt, hend⟩) hst hreg, CountedHeap.onHeap_ok hrun]
  refine ⟨_, rfl, hinv', _, rfl, ?_, ?_, hlt⟩
  · show st.used - layout.size = liveBytes (s.live.erase ⟨ptr, layout⟩)
    omega
  · show st.allocCount = st.freeCount + 1 + (s.live.erase ⟨ptr, layout⟩).length
    omega

theorem Balanced.step (hs : Balanced A s) (hhi : hi ≤ 2 ^ 64) {c : HeapCall} (hlegal : Legal c s)
    (hcount : Countable A c s) : ∃ s' ∈ CountedSystem.step A c s, Balanced A s' := by
  cases c with
  | alloc layout => exact hs.alloc hhi hcount
  | free ptr layout => exact hs.free hhi hlegal
end CountedSystem

/-! ## The statistics balance -/

/-- **The statistics of the heap balance**: no call panics, and any two snapshots differ by the change in the live
allocations. -/
def HeapBalances {H : Type} {lo hi : ℕ} (A : Allocator H lo hi) (calls : List HeapCall) (s : CountedSystem H) : Prop :=
  Along (CountedSystem.step A) (fun c s => (CountedSystem.step A c s).isSome) calls s ∧
    Between (CountedSystem.step A) HeapDifference calls s

/-- **The statistics of the page allocator balance**: any two snapshots differ by the change in the pages held. -/
def PagesBalance (calls : List PageCall) (s : Pool.State CountedPages MemBlock) : Prop :=
  Between (Pool.step countedSystem) PageDifference calls s

section Balance
variable {H : Type} {lo hi : ℕ} {A : Allocator H lo hi}

theorem heapBalances {h₀ : H} {heap : KernelHeap H} {calls : List HeapCall} (hhi : hi ≤ 2 ^ 64)
    (hinit : KernelHeap.init A (KernelHeap.new lo hi h₀) = .ok () heap)
    (hlegal : Along (CountedSystem.step A) CountedSystem.Legal calls ⟨⟨heap, some HeapStats.new⟩, []⟩)
    (hcount : Along (CountedSystem.step A) (CountedSystem.Countable A) calls ⟨⟨heap, some HeapStats.new⟩, []⟩) :
    HeapBalances A calls ⟨⟨heap, some HeapStats.new⟩, []⟩ := by
  have hstart : CountedSystem.Balanced A ⟨⟨heap, some HeapStats.new⟩, []⟩ :=
    ⟨HeapInv.init hinit, HeapStats.new, rfl, rfl, rfl, by decide⟩
  have hboth := hlegal.and hcount
  constructor
  · refine along_of_invariant (I := CountedSystem.Balanced A) (fun c s hs hc => ?_) hstart hboth
    obtain ⟨s', hstep, hs'⟩ := hs.step hhi hc.1 hc.2
    refine ⟨Option.isSome_of_mem hstep, fun t ht => ?_⟩
    cases Option.mem_unique hstep ht
    exact hs'
  · refine between_of_along (fun s t hs ht => hs.difference ht) (fun c s t hs hc ht => ?_) hstart hboth
    obtain ⟨s', hstep, hs'⟩ := hs.step hhi hc.1 hc.2
    cases Option.mem_unique hstep ht
    exact hs'

theorem pagesBalance {a : PageAllocator} {calls : List PageCall}
    (hlegal : Along (Pool.step countedSystem) (Pool.Legal countedSystem) calls ⟨⟨a, .empty⟩, []⟩)
    (hsingle : Along (Pool.step countedSystem) (fun c _ => c.Single) calls ⟨⟨a, .empty⟩, []⟩) :
    PagesBalance calls ⟨⟨a, .empty⟩, []⟩ := by
  have hstart : CountedPages.Balanced ⟨⟨a, .empty⟩, []⟩ := fun _ => rfl
  exact between_of_along (fun s t hs ht => hs.difference ht) (fun c s t hs hc ht => hs.step hc.1 hc.2 ht) hstart
    (hlegal.and hsingle)

/-- **The statistics balance** along every run in which no allocation on the heap fails and the guards of pages are
counted once. -/
theorem statsBalance {h₀ : H} {heap : KernelHeap H} {heapCalls : List HeapCall} {a : PageAllocator}
    {pageCalls : List PageCall} (hhi : hi ≤ 2 ^ 64)
    (hinit : KernelHeap.init A (KernelHeap.new lo hi h₀) = .ok () heap)
    (hheap : Along (CountedSystem.step A) CountedSystem.Legal heapCalls ⟨⟨heap, some HeapStats.new⟩, []⟩)
    (hcount : Along (CountedSystem.step A) (CountedSystem.Countable A) heapCalls ⟨⟨heap, some HeapStats.new⟩, []⟩)
    (hpages : Along (Pool.step countedSystem) (Pool.Legal countedSystem) pageCalls ⟨⟨a, .empty⟩, []⟩)
    (hsingle : Along (Pool.step countedSystem) (fun c _ => c.Single) pageCalls ⟨⟨a, .empty⟩, []⟩) :
    HeapBalances A heapCalls ⟨⟨heap, some HeapStats.new⟩, []⟩ ∧ PagesBalance pageCalls ⟨⟨a, .empty⟩, []⟩ :=
  ⟨heapBalances hhi hinit hheap hcount, pagesBalance hpages hsingle⟩
end Balance

/-- Four bytes allocated and freed, and one page with both guards. -/
theorem statsBalance_small :
    HeapBalances smallBacking [.alloc fourBytes, .free 4144 fourBytes] ⟨⟨smallHeap, some HeapStats.new⟩, []⟩ ∧
      PagesBalance [.allocateGuardedPages .Size4KiB 1 true true] ⟨⟨lowPages, .empty⟩, []⟩ := by
  refine statsBalance (by decide) smallHeap_init ?_ ?_ ?_ ?_
  · refine ⟨trivial, fun s hs => ⟨?_, fun _ _ => trivial⟩⟩
    cases Option.mem_unique hs rfl
    exact mem_cons_self
  · refine ⟨fun _ => ⟨⟨by decide, .inr (Option.some_ne_none _)⟩, fun st hst => ?_⟩, fun _ _ =>
      ⟨trivial, fun _ _ => trivial⟩⟩
    cases Option.mem_unique hst rfl
    decide
  · exact ⟨nil_subperm, fun _ _ => trivial⟩
  · exact ⟨fun _ => rfl, fun _ _ => trivial⟩

/-- An allocation that fails is counted, and so are the guards of two pages, four times. -/
theorem not_statsBalance : (Along (CountedSystem.step smallBacking) CountedSystem.Legal [.alloc wordAligned]
        ⟨⟨smallHeap, some HeapStats.new⟩, []⟩ ∧
      ¬ HeapBalances smallBacking [.alloc wordAligned] ⟨⟨smallHeap, some HeapStats.new⟩, []⟩) ∧
    Along (Pool.step countedSystem) (Pool.Legal countedSystem) [.allocateGuardedPages .Size4KiB 2 true true]
        ⟨⟨lowPages, .empty⟩, []⟩ ∧
      ¬ PagesBalance [.allocateGuardedPages .Size4KiB 2 true true] ⟨⟨lowPages, .empty⟩, []⟩ := by
  refine ⟨⟨⟨trivial, fun _ _ => trivial⟩, fun h => ?_⟩, ⟨nil_subperm, fun _ _ => trivial⟩, fun h => ?_⟩
  · obtain ⟨st, st', p, q, hst, hst', hp, hq, hused, -⟩ := h.2 [] [.alloc wordAligned] [] rfl _ rfl _ rfl
    cases hst
    cases hst'
    cases hp
    cases hq
    exact absurd hused (by decide)
  · obtain ⟨p, q, hp, hq, hcount⟩ := h [] [.allocateGuardedPages .Size4KiB 2 true true] [] rfl _ rfl _ rfl
    cases hp
    cases hq
    exact absurd (hcount .Size4KiB) (by decide)
end WasabiOS
