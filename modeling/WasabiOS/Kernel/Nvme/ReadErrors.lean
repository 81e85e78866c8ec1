import WasabiOS.Kernel.Nvme.BlockDevice
import WasabiOS.Kernel.Nvme.Outstanding

/-!
# Kernel/Nvme/ReadErrors — what a read leaves behind when it fails

A read returns at the first command of a batch that fails, and when it cannot get the pages for a command;
the other commands of the batch are then still in flight, or have not been flushed, and their pages are
freed all the same.  It leaves nothing behind exactly if it stops at the end of a batch (`readsClean_iff`).

The queue has one slot more than a batch has commands, so `batch` is one less than its size.
-/

open Machinery Prog
namespace WasabiOS
namespace Nvme
open List Option Nat Bool Run
variable {ctrl : Controller} {dev : NvmeBlockDevice} {status : ℕ → CommandStatusCode} {io io' : Io} {t0 batch len : ℕ}

/-- **A clean return**: no command of the read is in flight, pending or unclaimed, and no page was freed
before the command that uses it had completed. -/
structure Clean (io io' : Io) : Prop where
  flushed : ∀ c ∈ io'.ioQueue.history.pending, c.tag < io.ioQueue.history.submitted
  claimed : ∀ c ∈ io'.ioQueue.history.flushed, io.ioQueue.history.submitted ≤ c.tag →
    c.tag ∈ io'.ioQueue.history.taken.map CommonCompletionEntry.tag
  freed : io'.freedEarly = false

section RunOut
variable (translatePage : ℕ → Option ℕ) (dev : NvmeBlockDevice) (batch : ℕ)

/-- The group there are no pages for, if all commands succeed: the pages of a batch are free again after
it. -/
def pagesRunOut : List (Checked BlockGroup) → Buffer → List Prp → MappingsAllocator → Option ℕ
  | [], _, _, _ => none
  | block :: blocks, remaining, held, a =>
    match readCommand translatePage dev block remaining a with
    | .ok (_, prp, rest) a' =>
      if held.length + 1 = batch then
        (pagesRunOut blocks rest []
          (((held ++ [prp]).flatMap Prp.mappings).foldl MappingsAllocator.free a')).map (· + 1)
      else (pagesRunOut blocks rest (held ++ [prp]) a').map (· + 1)
    | .err _ _ => some 0
    | .fault _ => none
end RunOut

/-- **The read stops at the end of a batch**: the first command that fails, of those that are waited for,
is the last of its batch or of all `n`; and a group there are no pages for is the first of a batch. -/
def StopsAtBoundary (batch n : ℕ) (fails : ℕ → Bool) (runOut : Option ℕ) : Prop :=
  (∀ i < runOut.elim n (fun m => m / batch * batch), fails i = true → (∀ j < i, fails j = false) →
    batch ∣ i + 1 ∨ runOut = none ∧ i + 1 = n) ∧
  ∀ m, runOut = some m → (∀ i < m / batch * batch, fails i = false) → batch ∣ m

/-- A call of `readBlocksInternal`. -/
structure ReadCall where
  blocks : List (Checked BlockGroup)
  buffer : Buffer
  fuel : ℕ
  translatePage : ℕ → Option ℕ

namespace ReadCall
variable (ctrl : Controller) (dev : NvmeBlockDevice) (status : ℕ → CommandStatusCode)

def run (call : ReadCall) : Prog Io NvmeBlockError Unit :=
  readBlocksInternal ctrl call.fuel call.translatePage dev call.blocks call.buffer

/-- The state after a call, if it returns. -/
def step (call : ReadCall) (io : Io) : Option Io := (call.run ctrl dev io).state?

/-- If the call returns, it returns clean. -/
def ReturnsClean (call : ReadCall) (io : Io) : Prop := ∀ io' ∈ call.step ctrl dev io, Clean io io'

/-- If the call returns, it stops at the end of a batch. -/
def ReturnsAtBoundary (call : ReadCall) (io : Io) : Prop := (call.step ctrl dev io).isSome →
    StopsAtBoundary (io.ioQueue.queue.submissionQueueSize - 1) call.blocks.length
      (fun i => (status (io.ioQueue.history.submitted + i)).isErr)
      (pagesRunOut call.translatePage dev (io.ioQueue.queue.submissionQueueSize - 1) call.blocks call.buffer []
        io.prpPageAllocator)
end ReadCall

/-! ## A batch -/

/-- **A batch is being submitted**: `len` commands, of submission `t0 + start` on, and all of the read that
were before them have succeeded. -/
structure Held (status : ℕ → CommandStatusCode) (t0 batch start len : ℕ) (io : Io) : Prop where
  queue : Awaits status io.ioQueue []
  size : io.ioQueue.queue.submissionQueueSize = batch + 1
  submitted : io.ioQueue.history.submitted = t0 + (start + len)
  pending : io.ioQueue.history.pending.map CommonCommand.tag = range' (t0 + start) len
  idents : ∀ i ∈ io.readIdents, i.ident = i.tag % 2 ^ 16
  tags : io.readIdents.map ReadIdent.tag = range' (t0 + start) len
  succeeded : ∀ j < start, (status (t0 + j)).isErr = false
  freed : io.freedEarly = false

/-- **A command of a batch has failed**: the first that did is `i`, and those after it are outstanding. -/
structure Failed (status : ℕ → CommandStatusCode) (t0 start len i : ℕ) (io : Io) : Prop where
  queue : Awaits status io.ioQueue (range' (t0 + (i + 1)) (start + len - (i + 1)))
  pending : io.ioQueue.history.pending = []
  tags : io.readIdents.map ReadIdent.tag = range' (t0 + start) len
  posted : ∀ j, start ≤ j → j ≤ i → t0 + j ∈ io.ioQueue.device.posted.map CommonCompletionEntry.tag
  le : start ≤ i
  lt : i < start + len
  succeeded : ∀ j < i, (status (t0 + j)).isErr = false
  fails : (status (t0 + i)).isErr = true
  freed : io.freedEarly = false

/-- What waiting leaves as it is. -/
structure Waited (rules : Rules) (io io' : Io) : Prop where
  queue : ∃ es, Took rules es io.ioQueue io'.ioQueue
  allocator : io'.prpPageAllocator = io.prpPageAllocator
  idents : io'.readIdents = io.readIdents
  freed : io'.freedEarly = io.freedEarly

section Batch
variable {fuel : ℕ} {translatePage : ℕ → Option ℕ} {start : ℕ}

/-- **Waiting for the commands of a batch**, in order, up to the first that fails. -/
theorem waitForAll_wlp (hrules : ctrl.rules.Answers status) (idents : List ReadIdent)
    (h : Awaits status io.ioQueue (idents.map ReadIdent.tag)) (hnodup : (idents.map ReadIdent.tag).Nodup)
    (hident : ∀ i ∈ idents, i.ident = i.tag % 2 ^ 16) :
    (waitForAll ctrl fuel idents).wlp (fun _ io' => Waited ctrl.rules io io' ∧ Awaits status io'.ioQueue [] ∧
        ∀ i ∈ idents, (status i.tag).isErr = false ∧ i.tag ∈ io'.ioQueue.device.posted.map CommonCompletionEntry.tag)
      (fun _ io' => Waited ctrl.rules io io' ∧ ∃ l1 i l2, idents = l1 ++ i :: l2 ∧
        (∀ j ∈ l1, (status j.tag).isErr = false) ∧ (status i.tag).isErr = true ∧
        Awaits status io'.ioQueue (l2.map ReadIdent.tag) ∧
        ∀ j ∈ l1 ++ [i], j.tag ∈ io'.ioQueue.device.posted.map CommonCompletionEntry.tag) io := by
  induction idents generalizing io with
  | nil => exact ⟨⟨⟨[], Polled.refl⟩, rfl, rfl, rfl⟩, h, forall_mem_nil _⟩
  | cons i idents ih =>
    rw [waitForAll, wlp_bind, onIoQueue, wlp_zoom, wlp_mapErr, hident i mem_cons_self]
    refine wlp_mono (wlp_of_wp (h.waitFor_wp hrules hnodup fuel)) ?_ fun _ _ => False.elim
    rintro (_ | e) s1 ⟨htook, hfound⟩
    · trivial
    · obtain ⟨hstatus, hposted, h1⟩ := hfound e rfl
      show Prog.wlp (if e.status.isErr then _ else _) _ _ _
      rw [hstatus]
      cases herr : (status i.tag).isErr with
      | true =>
        rw [if_pos rfl]
        refine ⟨⟨⟨_, htook⟩, rfl, rfl, rfl⟩, [], i, idents, rfl, forall_mem_nil _, herr, h1, fun j hj => ?_⟩
        cases mem_singleton.1 hj
        exact hposted
      | false =>
        rw [if_neg nofun]
        have h1 : Awaits status (io.setQueue s1).ioQueue (idents.map ReadIdent.tag) := h1
        have hrest := ih h1 (nodup_cons.1 hnodup).2 fun j hj => hident j (mem_cons_of_mem i hj)
        -- the completions of this command and of those after it
        have hkeep : ∀ {io' : Io}, Waited ctrl.rules (io.setQueue s1) io' →
            Waited ctrl.rules io io' ∧ i.tag ∈ io'.ioQueue.device.posted.map CommonCompletionEntry.tag := by
          rintro io' ⟨⟨es, htook'⟩, hallocator, hidents, hfreed⟩
          refine ⟨⟨⟨_, htook.trans htook'⟩, hallocator, hidents, hfreed⟩, ?_⟩
          exact map_subset _ htook'.posted.subset hposted
        refine wlp_mono hrest ?_ ?_
        · rintro - io' ⟨hwaited, h', hall⟩
          obtain ⟨hwaited, hmem⟩ := hkeep hwaited
          refine ⟨hwaited, h', fun j hj => ?_⟩
          rcases mem_cons.1 hj with rfl | hj
          · exact ⟨herr, hmem⟩
          · exact hall j hj
        · rintro err io' ⟨hwaited, l1, j, l2, rfl, hsucceeded, hfails, h', hall⟩
          obtain ⟨hwaited, hmem⟩ := hkeep hwaited
          refine ⟨hwaited, i :: l1, j, l2, rfl, fun k hk => ?_, hfails, h', fun k hk => ?_⟩
          · rcases mem_cons.1 hk with rfl | hk
            · exact herr
            · exact hsucceeded k hk
          · rcases mem_cons.1 hk with rfl | hk
            · exact hmem
            · exact hall k hk

/-- Freeing the pages of commands that have completed. -/
theorem Io.freePrp_freed (hfreed : io.freedEarly = false)
    (hposted : ∀ i ∈ io.readIdents, i.tag ∈ io.ioQueue.device.posted.map CommonCompletionEntry.tag) :
    io.freePrp.freedEarly = false := by
  have hnone : io.readIdents.any io.usesPages = false := by
    refine any_eq_false.2 fun i hi => ?_
    rw [Io.usesPages, decide_eq_false (not_not.2 (hposted i hi)), Bool.and_false]
    exact nofun
  rw [Io.freePrp, hfreed, hnone]
  rfl

/-- **Flushing a batch** and waiting for it. -/
theorem flushIoQueue_wlp (hrules : ctrl.rules.Answers status) (h : Held status t0 batch start len io) :
    (flushIoQueue ctrl fuel).wlp (fun _ io' => Held status t0 batch (start + len) 0 io' ∧ io'.prpPageAllocator =
          (io.readIdents.flatMap fun i => i.prp.mappings).foldl MappingsAllocator.free io.prpPageAllocator)
      (fun _ io' => ∃ i, Failed status t0 start len i io') io := by
  rw [flushIoQueue, wlp_bind, onIoQueue, wlp_zoom]
  refine wlp_mono (wlp_of_wp (h.queue.flush_wp hrules)) ?_ fun _ _ => False.elim
  rintro - s1 ⟨htold, h1⟩
  rw [h.pending, ← h.tags] at h1
  rw [wlp_bind, wlp_get, wlp_bind]
  have h1 : Awaits status (io.setQueue s1).ioQueue ((io.setQueue s1).readIdents.map ReadIdent.tag) := h1
  have hnodup : ((io.setQueue s1).readIdents.map ReadIdent.tag).Nodup := by
    show (io.readIdents.map ReadIdent.tag).Nodup
    rw [h.tags]
    exact nodup_range'
  refine wlp_mono (waitForAll_wlp hrules _ h1 hnodup h.idents) ?_ ?_
  · rintro - io2 ⟨⟨⟨es, htook⟩, hallocator, hidents, hfreed⟩, h2, hall⟩
    have hmem : ∀ j, start ≤ j → j < start + len → ∃ i ∈ io.readIdents, i.tag = t0 + j := by
      intro j hj hlt
      refine mem_map.1 ?_
      rw [h.tags]
      exact mem_range'_1.2 ⟨by omega, by omega⟩
    rw [wlp_modify]
    refine ⟨⟨h2, ?_, ?_, ?_, forall_mem_nil _, rfl, fun j hj => ?_, ?_⟩, ?_⟩
    · exact (htook.submissionSize.trans htold.submissionSize).trans h.size
    · exact (htook.submitted.trans htold.submitted).trans h.submitted
    · show io2.ioQueue.history.pending.map CommonCommand.tag = []
      rw [htook.pending]
      exact congrArg (List.map CommonCommand.tag) htold.pending
    · rcases lt_or_ge j start with hlt | hge
      · exact h.succeeded j hlt
      · obtain ⟨i, hi, htag⟩ := hmem j hge hj
        exact htag ▸ (hall i hi).1
    · refine Io.freePrp_freed (hfreed.trans h.freed) fun i hi => (hall i ?_).2
      rw [hidents] at hi
      exact hi
    · show (io2.readIdents.flatMap _).foldl _ io2.prpPageAllocator = _
      rw [hidents, hallocator]
      rfl
  · rintro err io2 ⟨⟨⟨es, htook⟩, hallocator, hidents, hfreed⟩, l1, i, l2, hsplit, hsucceeded, hfails, h2, hposted⟩
    -- the commands before the one that fails, and those after it
    have htags : l1.map ReadIdent.tag ++ i.tag :: l2.map ReadIdent.tag = range' (t0 + start) len := by
      rw [← h.tags]
      show _ = (io.setQueue s1).readIdents.map ReadIdent.tag
      rw [hsplit, map_append, map_cons]
    obtain ⟨k, hk, hbefore, hrest⟩ := range'_eq_append_iff.1 htags.symm
    obtain ⟨htag, hpos, hafter⟩ := range'_eq_cons_iff.1 hrest.symm
    have hmem : ∀ j, start ≤ j → j < start + k → ∃ i' ∈ l1, i'.tag = t0 + j := by
      intro j hj hlt
      refine mem_map.1 ?_
      rw [hbefore]
      exact mem_range'_1.2 ⟨by omega, by omega⟩
    have hi : i.tag = t0 + (start + k) := by omega
    refine ⟨start + k, ?_, ?_, ?_, fun j hj hle => ?_, le_add_right _ _, by omega, fun j hj => ?_, hi ▸ hfails,
      hfreed.trans h.freed⟩
    · rw [hafter, hi] at h2
      have hlength : start + len - (start + k + 1) = len - k - 1 := by omega
      rw [hlength]
      exact h2
    · rw [htook.pending]
      exact htold.pending
    · rw [hidents]
      exact h.tags
    · rcases lt_or_eq_of_le hle with hlt | rfl
      · obtain ⟨i', hi', htag'⟩ := hmem j hj hlt
        exact htag' ▸ hposted i' (mem_append_left _ hi')
      · exact hi ▸ hposted i (mem_append_right _ (mem_singleton_self i))
    · rcases lt_or_ge j start with hlt | hge
      · exact h.succeeded j hlt
      · obtain ⟨i', hi', htag'⟩ := hmem j hge hj
        exact htag' ▸ hsucceeded i' hi'

section
variable (h : Held status t0 batch start len io)
include h

theorem Held.setAllocator (a : MappingsAllocator) :
    Held status t0 batch start len (io.setAllocator a) :=
  { h with }

theorem Held.batch_lt : 0 < batch ∧ batch < 64 := by
  obtain ⟨known, hinv⟩ := h.queue.inv
  have htwo := hinv.submission.two_le
  have hle := hinv.submission.le_64
  have hsize := h.size
  omega

theorem Held.length_pending : io.ioQueue.history.pending.length = len := by
  have hlength := congrArg List.length h.pending
  rw [length_map, length_range'] at hlength
  exact hlength

theorem Held.length_idents : io.readIdents.length = len := by
  have hlength := congrArg List.length h.tags
  rw [length_map, length_range'] at hlength
  exact hlength
end

/-- **One more command** in the batch. -/
theorem submitRead_wlp (hrules : ctrl.rules.Answers status) (h : Held status t0 batch start len io)
    (hlen : len < batch) (command : CommonCommand) (prp : Prp) :
    (submitRead ctrl command prp).wlp
      (fun _ io' => Held status t0 batch start (len + 1) io' ∧ io'.prpPageAllocator = io.prpPageAllocator ∧
        io'.readIdents.map ReadIdent.prp = io.readIdents.map ReadIdent.prp ++ [prp])
      (fun _ _ => False) io := by
  have hroom : io.ioQueue.history.pending.length + 1 < io.ioQueue.queue.submissionQueueSize := by
    rw [h.length_pending, h.size]
    omega
  have hlast : io.ioQueue.history.submitted = t0 + start + len := by rw [h.submitted, add_assoc]
  rw [submitRead, wlp_bind, wlp_get, wlp_bind, onIoQueue, wlp_zoom, wlp_mapErr]
  refine wlp_mono (wlp_of_wp (h.queue.submit_wp hrules hroom command)) ?_ fun _ _ => False.elim
  rintro ident s1 ⟨rfl, hwrote, h1⟩
  rw [wlp_bind, wlp_assert]
  intro _
  rw [wlp_modify]
  refine ⟨⟨h1, hwrote.submissionSize.trans h.size, ?_, ?_, fun i hi => ?_, ?_, h.succeeded, h.freed⟩, rfl, map_append⟩
  · show s1.history.submitted = t0 + (start + (len + 1))
    rw [hwrote.submitted, h.submitted]
    omega
  · show s1.history.pending.map CommonCommand.tag = range' (t0 + start) (len + 1)
    rw [hwrote.pending, map_append, h.pending, range'_1_concat, ← hlast]
    rfl
  · rcases mem_append.1 hi with hi | hi
    · exact h.idents i hi
    · cases mem_singleton.1 hi
      rfl
  · show (io.readIdents ++ [_]).map ReadIdent.tag = range' (t0 + start) (len + 1)
    rw [map_append, h.tags, range'_1_concat, ← hlast]
    rfl

/-- **A full batch is flushed.** -/
theorem flushIfFull_wlp (hrules : ctrl.rules.Answers status) (h : Held status t0 batch start len io)
    (hlen : len ≤ batch) :
    (flushIfFull ctrl fuel).wlp
      (fun _ io' => (len < batch ∧ io' = io) ∨ (len = batch ∧ Held status t0 batch (start + batch) 0 io' ∧
        io'.prpPageAllocator =
          (io.readIdents.flatMap fun i => i.prp.mappings).foldl MappingsAllocator.free io.prpPageAllocator))
      (fun _ io' => len = batch ∧ ∃ i, Failed status t0 start batch i io') io := by
  obtain ⟨-, hlt⟩ := h.batch_lt
  have hfull : io.readIdents.length ≠ 64 := by
    rw [h.length_idents]
    omega
  rw [flushIfFull, wlp_bind, wlp_get, if_neg hfull, wlp_bind, h.queue.isFullForSubmission,
    lift_ok, wlp_pure, h.length_pending, h.size]
  by_cases heq : len = batch
  · subst heq
    rw [if_pos (decide_eq_true rfl)]
    exact wlp_mono (flushIoQueue_wlp hrules h) (fun _ _ h' => .inr ⟨rfl, h'⟩) fun _ _ h' => ⟨rfl, h'⟩
  · rw [if_neg fun hd => heq (Nat.succ.inj (of_decide_eq_true hd))]
    exact .inl ⟨lt_of_le_of_ne hlen heq, rfl⟩

/-! ## The loop -/

/-- The loop has got as far as the group `i`, in the middle of a batch. -/
def Reads (status : ℕ → CommandStatusCode) (t0 batch i : ℕ) (io : Io) : Prop :=
  ∃ start len, batch ∣ start ∧ len < batch ∧ start + len = i ∧ Held status t0 batch start len io

/-- A command of a full batch has failed, and the batch ends before the group `i`. -/
def FailsBefore (status : ℕ → CommandStatusCode) (t0 batch i : ℕ) (io : Io) : Prop :=
  ∃ start j, batch ∣ start ∧ start + batch ≤ i ∧ Failed status t0 start batch j io

/-- **What the loop does**: it gets through, or it runs out of pages, or a command of a batch that is full
before that fails. -/
theorem readLoop_wlp (hrules : ctrl.rules.Answers status) (blocks : List (Checked BlockGroup)) (remaining : Buffer)
    {i : ℕ} {runOut : Option ℕ} (h : Reads status t0 batch i io)
    (hrunOut : pagesRunOut translatePage dev batch blocks remaining (io.readIdents.map ReadIdent.prp)
      io.prpPageAllocator = runOut) :
    (readLoop ctrl fuel translatePage dev blocks remaining).wlp
      (fun _ io' => runOut = none ∧ Reads status t0 batch (i + blocks.length) io')
      (fun _ io' => (∃ m, runOut = some m ∧ Reads status t0 batch (i + m) io') ∨
        FailsBefore status t0 batch (i + runOut.getD blocks.length) io') io := by
  induction blocks generalizing io remaining i runOut with
  | nil => exact ⟨hrunOut.symm, h⟩
  | cons block blocks ih =>
    obtain ⟨start, len, hdvd, hlen, rfl, hheld⟩ := h
    rw [readLoop, wlp_bind, wlp_zoom, wlp_mapErr, Prog.wlp]
    rw [pagesRunOut] at hrunOut
    cases hrun : readCommand translatePage dev block remaining io.prpPageAllocator with
    | fault f => trivial
    | err e a =>
      rw [hrun] at hrunOut
      exact .inl ⟨0, hrunOut.symm, start, len, hdvd, hlen, rfl, hheld.setAllocator a⟩
    | ok r a =>
      obtain ⟨command, prp, rest⟩ := r
      rw [hrun] at hrunOut
      dsimp only at hrunOut
      rw [length_map, hheld.length_idents] at hrunOut
      -- the rest of the loop, one group further on
      have hrest : ∀ {io2 : Io} {runOut2 : Option ℕ}, Reads status t0 batch (start + len + 1) io2 →
          pagesRunOut translatePage dev batch blocks rest (io2.readIdents.map ReadIdent.prp) io2.prpPageAllocator =
            runOut2 → runOut = runOut2.map (· + 1) →
          (readLoop ctrl fuel translatePage dev blocks rest).wlp
            (fun _ io' => runOut = none ∧ Reads status t0 batch (start + len + (blocks.length + 1)) io')
            (fun _ io' => (∃ m, runOut = some m ∧ Reads status t0 batch (start + len + m) io') ∨
              FailsBefore status t0 batch (start + len + runOut.getD (blocks.length + 1)) io') io2 := by
        intro io2 runOut2 hreads hrunOut2 heq
        subst heq
        refine wlp_mono (ih rest hreads hrunOut2) ?_ ?_
        · rintro - io' ⟨rfl, hreads'⟩
          refine ⟨rfl, ?_⟩
          rw [add_comm blocks.length, ← add_assoc]
          exact hreads'
        · rintro - io' (⟨m, rfl, hreads'⟩ | hfails)
          · refine .inl ⟨m + 1, rfl, ?_⟩
            rw [add_comm m, ← add_assoc]
            exact hreads'
          · refine .inr ?_
            have hshift : (runOut2.map (· + 1)).getD (blocks.length + 1) = runOut2.getD blocks.length + 1 := by
              cases runOut2 <;> rfl
            rw [hshift, add_comm (runOut2.getD blocks.length), ← add_assoc]
            exact hfails
      show Prog.wlp _ _ _ (io.setAllocator a)
      rw [wlp_bind]
      refine wlp_mono (submitRead_wlp hrules (hheld.setAllocator a) hlen command prp) ?_ fun _ _ => False.elim
      rintro - io₁ ⟨hheld1, hallocator, hprps⟩
      have hallocator : io₁.prpPageAllocator = a := hallocator
      have hprps : io₁.readIdents.map ReadIdent.prp = io.readIdents.map ReadIdent.prp ++ [prp] := hprps
      rw [wlp_bind]
      refine wlp_mono (flushIfFull_wlp hrules hheld1 hlen) ?_ ?_
      · rintro - io2 (⟨hlt, rfl⟩ | ⟨heq, hheld2, hfreed⟩)
        · rw [if_neg hlt.ne, ← hprps, ← hallocator] at hrunOut
          exact hrest ⟨start, len + 1, hdvd, hlt, rfl, hheld1⟩ rfl hrunOut.symm
        · have hnil : io2.readIdents = [] := length_eq_zero_iff.1 hheld2.length_idents
          have hfreed : io2.prpPageAllocator =
              ((io.readIdents.map ReadIdent.prp ++ [prp]).flatMap Prp.mappings).foldl MappingsAllocator.free a := by
            rw [hfreed, hallocator, ← hprps, flatMap_map]
          rw [if_pos heq, ← hfreed] at hrunOut
          refine hrest ⟨start + batch, 0, Nat.dvd_add hdvd (dvd_refl _), ?_, ?_, hheld2⟩ ?_ hrunOut.symm
          · exact hheld2.batch_lt.1
          · omega
          · rw [hnil]
            rfl
      · rintro - io2 ⟨heq, j, hfailed⟩
        refine .inr ⟨start, j, hdvd, ?_, hfailed⟩
        have hpos : 1 ≤ runOut.getD (blocks.length + 1) := by
          rw [if_pos heq] at hrunOut
          subst hrunOut
          cases pagesRunOut translatePage dev batch blocks rest [] _ with
          | none => exact le_add_left _ _
          | some m => exact le_add_left _ _
        show start + batch ≤ start + len + runOut.getD (blocks.length + 1)
        omega
end Batch

/-! ## The read -/

/-- Nothing is outstanding or pending, and no page was freed early. -/
structure Idle (status : ℕ → CommandStatusCode) (io : Io) : Prop where
  queue : Awaits status io.ioQueue []
  pending : io.ioQueue.history.pending = []
  freed : io.freedEarly = false

/-- **How a read of `n` groups ends**: all commands have succeeded; there are no pages for the next group;
or a command has failed, in a full batch or in the last one. -/
def Ends (status : ℕ → CommandStatusCode) (t0 batch n : ℕ) (runOut : Option ℕ) (io : Io) : Prop :=
  (runOut = none ∧ Held status t0 batch n 0 io) ∨
  (∃ m start len, runOut = some m ∧ batch ∣ start ∧ len < batch ∧ start + len = m ∧ Held status t0 batch start len io) ∨
  ∃ start len i, batch ∣ start ∧ len ≤ batch ∧ start + len ≤ runOut.getD n ∧
    (len = batch ∨ runOut = none ∧ start + len = n) ∧ Failed status t0 start len i io

section Read
variable {start n i : ℕ} {runOut : Option ℕ} {fails : ℕ → Bool}

theorem Idle.held (h : Idle status io) :
    Held status io.ioQueue.history.submitted (io.ioQueue.queue.submissionQueueSize - 1) 0 0 (io.setIdents []) := by
  obtain ⟨known, hinv⟩ := h.queue.inv
  have htwo := hinv.submission.two_le
  refine ⟨h.queue, ?_, rfl, ?_, forall_mem_nil _, rfl, nofun, h.freed⟩
  · show io.ioQueue.queue.submissionQueueSize = _
    omega
  · show io.ioQueue.history.pending.map CommonCommand.tag = []
    rw [h.pending]
    rfl

/-- **What a read does**, from an idle queue. -/
theorem Idle.run_wlp (hrules : ctrl.rules.Answers status) (h : Idle status io) (call : ReadCall)
    (hbatch : batch = io.ioQueue.queue.submissionQueueSize - 1)
    (hrunOut : pagesRunOut call.translatePage dev batch call.blocks call.buffer [] io.prpPageAllocator = runOut) :
    (call.run ctrl dev).wlp (fun _ io' => ∃ io₁ : Io, io' = io₁.freePrp ∧
        Ends status io.ioQueue.history.submitted batch call.blocks.length runOut io₁)
      (fun _ io' => ∃ io₁ : Io, io' = io₁.freePrp ∧
        Ends status io.ioQueue.history.submitted batch call.blocks.length runOut io₁) io := by
  subst hbatch
  have hheld := h.held
  have hreads : Reads status io.ioQueue.history.submitted (io.ioQueue.queue.submissionQueueSize - 1) 0
      (io.setIdents []) := ⟨0, 0, Nat.dvd_zero _, hheld.batch_lt.1, rfl, hheld⟩
  -- whatever the result is, the pages are freed and it is returned
  have hend : ∀ {r : Except NvmeBlockError Unit} {io₁ : Io},
      Ends status io.ioQueue.history.submitted (io.ioQueue.queue.submissionQueueSize - 1) call.blocks.length runOut
        io₁ →
      (do Prog.modify Io.freePrp; ofExcept r : Prog Io NvmeBlockError Unit).wlp
        (fun _ io' => ∃ io₁ : Io, io' = io₁.freePrp ∧ Ends status io.ioQueue.history.submitted
          (io.ioQueue.queue.submissionQueueSize - 1) call.blocks.length runOut io₁)
        (fun _ io' => ∃ io₁ : Io, io' = io₁.freePrp ∧ Ends status io.ioQueue.history.submitted
          (io.ioQueue.queue.submissionQueueSize - 1) call.blocks.length runOut io₁) io₁ := by
    intro r io₁ hends
    rw [wlp_bind, wlp_modify]
    cases r with
    | ok u => exact ⟨io₁, rfl, hends⟩
    | error e => exact ⟨io₁, rfl, hends⟩
  rw [ReadCall.run, readBlocksInternal, wlp_bind, wlp_modify, wlp_bind, wlp_attempt, wlp_bind]
  refine wlp_mono (readLoop_wlp hrules call.blocks call.buffer hreads hrunOut) ?_ ?_
  · rintro - io₁ ⟨hnone, start, len, hdvd, hlen, heq, hheld1⟩
    rw [zero_add] at heq
    refine wlp_mono (flushIoQueue_wlp hrules hheld1) ?_ ?_
    · rintro - io2 ⟨hheld2, -⟩
      exact hend (.inl ⟨hnone, heq ▸ hheld2⟩)
    · rintro err io2 ⟨i, hfailed⟩
      refine hend (.inr (.inr ⟨start, len, i, hdvd, hlen.le, ?_, .inr ⟨hnone, heq⟩, hfailed⟩))
      rw [hnone]
      exact heq.le
  · rintro err io₁ (⟨m, hsome, start, len, hdvd, hlen, heq, hheld1⟩ | ⟨start, i, hdvd, hle, hfailed⟩)
    · rw [zero_add] at heq
      exact hend (.inr (.inl ⟨m, start, len, hsome, hdvd, hlen, heq, hheld1⟩))
    · rw [zero_add] at hle
      exact hend (.inr (.inr ⟨start, _, i, hdvd, le_rfl, hle, .inl rfl, hfailed⟩))

/-- With nothing in the batch, nothing is left behind. -/
theorem Held.idle (h : Held status t0 batch start 0 io) : Idle status io.freePrp := by
  have hidents : io.readIdents = [] := length_eq_zero_iff.1 h.length_idents
  refine ⟨h.queue, length_eq_zero_iff.1 h.length_pending, Io.freePrp_freed h.freed fun i hi => ?_⟩
  rw [hidents] at hi
  exact absurd hi not_mem_nil

theorem Idle.clean (h : Idle status io') (io : Io) : Clean io io' := by
  refine ⟨fun c hc => ?_, fun c hc _ => (h.queue.claimed c hc).resolve_right not_mem_nil, h.freed⟩
  rw [h.pending] at hc
  exact absurd hc not_mem_nil

/-- A read that ran out of pages is clean exactly if the batch is empty. -/
theorem Held.clean_iff (h : Held status io.ioQueue.history.submitted batch start len io') :
    Clean io io'.freePrp ↔ len = 0 := by
  constructor
  · intro hclean
    by_contra hlen
    have hmem : io.ioQueue.history.submitted + start ∈ io'.ioQueue.history.pending.map CommonCommand.tag := by
      rw [h.pending]
      exact mem_range'_1.2 ⟨le_rfl, by omega⟩
    obtain ⟨c, hc, htag⟩ := mem_map.1 hmem
    have hlt := hclean.flushed c hc
    omega
  · rintro rfl
    exact h.idle.clean io

theorem Failed.idle (h : Failed status t0 start len i io) (hlast : i + 1 = start + len) :
    Idle status io.freePrp := by
  have hqueue := h.queue
  rw [hlast, Nat.sub_self] at hqueue
  refine ⟨hqueue, h.pending, Io.freePrp_freed h.freed fun r hr => ?_⟩
  have hmem : r.tag ∈ range' (t0 + start) len := h.tags ▸ mem_map_of_mem hr
  obtain ⟨hle, hlt⟩ := mem_range'_1.1 hmem
  have hposted := h.posted (r.tag - t0) (by omega) (by omega)
  rw [Nat.add_sub_cancel' (by omega)] at hposted
  exact hposted

/-- A read with a command that failed is clean exactly if that was the last of its batch. -/
theorem Failed.clean_iff (h : Failed status io.ioQueue.history.submitted start len i io') :
    Clean io io'.freePrp ↔ i + 1 = start + len := by
  constructor
  · intro hclean
    by_contra hne
    have hlt := h.lt
    have hmem : io.ioQueue.history.submitted + (i + 1) ∈
        range' (io.ioQueue.history.submitted + (i + 1)) (start + len - (i + 1)) :=
      mem_range'_1.2 ⟨le_rfl, by omega⟩
    obtain ⟨c, hc, htag⟩ := h.queue.flushed _ hmem
    exact h.queue.unclaimed _ hmem (htag ▸ hclean.claimed c hc (by omega))
  · intro hlast
    exact (h.idle hlast).clean io

/-- Where in its batch a read stops. -/
theorem stopsAtBoundary_of_runOut {m : ℕ} (hdvd : batch ∣ start) (hlen : len < batch)
    (hm : start + len = m) (hsucceeded : ∀ j < start, fails j = false) :
    StopsAtBoundary batch n fails (some m) ↔ len = 0 := by
  obtain ⟨k, rfl⟩ := hdvd
  have hdiv : m / batch * batch = batch * k := by
    rw [← hm, mul_add_div (by omega), div_eq_of_lt hlen, add_zero, mul_comm]
  have hboundary : batch ∣ m ↔ len = 0 := by
    rw [← hm, Nat.dvd_add_right (dvd_mul_right _ _)]
    exact ⟨fun h => eq_zero_of_dvd_of_lt h hlen, fun h => h ▸ Nat.dvd_zero _⟩
  constructor
  · rintro ⟨-, hruns⟩
    exact hboundary.1 (hruns m rfl (hdiv ▸ hsucceeded))
  · intro hzero
    refine ⟨fun i hi hfails _ => ?_, fun m' hm' _ => ?_⟩
    · have hi : i < batch * k := hdiv ▸ hi
      exact absurd (hfails.symm.trans (hsucceeded i hi)) true_eq_false_eq_False
    · cases hm'
      exact hboundary.2 hzero

theorem stopsAtBoundary_of_fails (hdvd : batch ∣ start) (hlen : len ≤ batch)
    (hreached : start + len ≤ runOut.getD n) (hbatch : len = batch ∨ runOut = none ∧ start + len = n)
    (hle : start ≤ i) (hlt : i < start + len) (hsucceeded : ∀ j < i, fails j = false) (hfails : fails i = true) :
    StopsAtBoundary batch n fails runOut ↔ i + 1 = start + len := by
  have hfirst : ∀ {j}, fails j = true → (∀ j' < j, fails j' = false) → j = i := by
    intro j hj hbefore
    rcases lt_trichotomy j i with hji | rfl | hij
    · exact absurd (hj.symm.trans (hsucceeded j hji)) true_eq_false_eq_False
    · rfl
    · exact absurd (hfails.symm.trans (hbefore i hij)) true_eq_false_eq_False
  -- the batch ends before the read runs out of pages
  have hwaited : ∀ m, runOut = some m → i < m / batch * batch := by
    rintro m rfl
    obtain rfl : len = batch := hbatch.resolve_right fun h => absurd h.1 nofun
    obtain ⟨k, rfl⟩ := hdvd
    have hk : k + 1 ≤ m / len := (le_div_iff_mul_le (by omega)).2 (by
      rw [succ_mul, mul_comm k]
      exact hreached)
    calc i < len * k + len := hlt
      _ = (k + 1) * len := by rw [succ_mul, mul_comm k]
      _ ≤ m / len * len := mul_le_mul_right len hk
  constructor
  · rintro ⟨hstatus, -⟩
    have hin : i < runOut.elim n (fun m => m / batch * batch) := by
      cases runOut with
      | none => exact hlt.trans_le hreached
      | some m => exact hwaited m rfl
    rcases hstatus i hin hfails hsucceeded with hlast | ⟨rfl, hlast⟩
    · obtain ⟨k, rfl⟩ := hdvd
      obtain ⟨l, hl⟩ := hlast
      have hkl : k < l := Nat.lt_of_mul_lt_mul_left (a := batch) (by omega)
      have hmul : batch * (k + 1) ≤ batch * l := mul_le_mul_left _ hkl
      rw [mul_succ] at hmul
      omega
    · have hreached : start + len ≤ n := hreached
      omega
  · intro hlast
    refine ⟨fun j _ hj hbefore => ?_, fun m hm hall => ?_⟩
    · obtain rfl := hfirst hj hbefore
      rw [hlast]
      rcases hbatch with rfl | hnone
      · exact .inl (Nat.dvd_add hdvd (dvd_refl _))
      · exact .inr hnone
    · exact absurd (hfails.symm.trans (hall i (hwaited m hm))) true_eq_false_eq_False

/-- **A read returns clean exactly if it stops at the end of a batch**, and the queue is then idle
again. -/
theorem Ends.clean_iff (h : Ends status io.ioQueue.history.submitted batch n runOut io') :
    (Clean io io'.freePrp ↔ StopsAtBoundary batch n
      (fun i => (status (io.ioQueue.history.submitted + i)).isErr) runOut) ∧
    (Clean io io'.freePrp → Idle status io'.freePrp) := by
  rcases h with ⟨rfl, hheld⟩ | ⟨m, start, len, rfl, hdvd, hlen, hm, hheld⟩ |
    ⟨start, len, i, hdvd, hlen, hreached, hbatch, hfailed⟩
  · refine ⟨iff_of_true (hheld.idle.clean io) ⟨fun i hi hfails _ => ?_, fun m hm => ?_⟩, fun _ => hheld.idle⟩
    · exact absurd (hfails.symm.trans (hheld.succeeded i hi)) true_eq_false_eq_False
    · cases hm
  · refine ⟨hheld.clean_iff.trans (stopsAtBoundary_of_runOut hdvd hlen hm hheld.succeeded).symm, fun hclean => ?_⟩
    obtain rfl := hheld.clean_iff.1 hclean
    exact hheld.idle
  · refine ⟨hfailed.clean_iff.trans (stopsAtBoundary_of_fails hdvd hlen hreached hbatch hfailed.le hfailed.lt
      hfailed.succeeded hfailed.fails).symm, fun hclean => ?_⟩
    exact hfailed.idle (hfailed.clean_iff.1 hclean)
end Read

/-- A new queue, with some pages to reuse. -/
def Io.start (q : CommandQueue) (a : MappingsAllocator) : Io := ⟨State.start q, a, [], false⟩

variable {q : CommandQueue} {id submissionSize completionSize : ℕ}

theorem Idle.start (hq : CommandQueue.allocate id submissionSize completionSize = .ok q) (a : MappingsAllocator) :
    Idle status (Io.start q a) := by
  have hnumbered : Numbered (State.start q) := Numbered.start hq
  exact ⟨⟨⟨0, Inv.start hq⟩, hnumbered, ⟨hnumbered.answered, le_rfl, forall_mem_nil _⟩,
    forall_mem_nil _, forall_mem_nil _,
    forall_mem_nil _⟩, rfl, rfl⟩

/-- How a call from an idle queue ends, if it returns. -/
theorem Idle.ends (hrules : ctrl.rules.Answers status) (h : Idle status io) (call : ReadCall)
    (hio : io' ∈ call.step ctrl dev io) :
    ∃ io₁ : Io, io' = io₁.freePrp ∧ Ends status io.ioQueue.history.submitted
      (io.ioQueue.queue.submissionQueueSize - 1) call.blocks.length
      (pagesRunOut call.translatePage dev (io.ioQueue.queue.submissionQueueSize - 1) call.blocks call.buffer []
        io.prpPageAllocator) io₁ :=
  wlp_state (h.run_wlp hrules call rfl rfl) hio

/-- A controller that completes each command once, with the status it is assigned, and consumes and completes
up to `n` commands whenever it can. -/
def answering (status : ℕ → CommandStatusCode) (entry : ℕ → CommonCompletionEntry) (n : ℕ) : Controller where
  rules d head e := onceController.rules d head e &&
    decide (head = d.fetched.length ∧ e.status = status e.tag)
  attempts _ := [.fetch, .fetch] ++ (List.range n).map fun i => .post 2 (entry i)

theorem answering_answers (status : ℕ → CommandStatusCode) (entry : ℕ → CommonCompletionEntry) (n : ℕ) :
    (answering status entry n).rules.Answers status where
  once _ _ _ h := of_decide_eq_true (and_eq_true_iff.1 h).1
  head _ _ _ h := (of_decide_eq_true (and_eq_true_iff.1 h).2).1
  status _ _ _ h := (of_decide_eq_true (and_eq_true_iff.1 h).2).2

/-- The completion of command `i`, with a generic status. -/
def completion (code i : ℕ) : CommonCompletionEntry := ⟨0, 0, i, ⟨false, code, 0⟩, i⟩

/-- A device with the blocks of the controller. -/
def plainDevice : NvmeBlockDevice := ⟨.ZERO, 100, ⟨512, 4096⟩, 0⟩

/-- No pages, and the kernel has none. -/
def noPages : MappingsAllocator := ⟨[], fun _ => .error .outOfMemory, 0, fun _ _ => 0⟩

/-- Two groups of one block. -/
def twoGroups : ReadCall where
  blocks := [BlockGroup.withCount .ZERO 1, BlockGroup.withCount .ZERO 1]
  buffer := ⟨4096, 1024⟩
  fuel := 1
  translatePage := some

/-- All commands succeed. -/
def allSucceed : ℕ → CommandStatusCode := fun _ => .genericStatus 0

/-- The first command fails. -/
def firstFails : ℕ → CommandStatusCode := fun i => .genericStatus (if i = 0 then 4 else 0)

end Nvme
end WasabiOS
