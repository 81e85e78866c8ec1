import WasabiOS.Kernel.CoreLocal
import WasabiOS.Machinery.Run

/-!
# Kernel/LockRuns — the interrupt state over nested locks

One core takes and drops guards, the last one taken first, and locks are shattered in between.  While guards
are live the counters of the core are what they were at the start plus one for each guard, and interrupts are
off exactly as long as a guard of a lock that turns them off is live (`balanced_of_sound`).

`unlock` does not look at how its guard was acquired: a guard of a lock that was shattered before leaves the
core without having entered a lock.
-/

open Machinery
open Function (update update_self update_of_ne)
namespace WasabiOS
open List Option Bool Run

/-! ## The counters of a core -/

namespace CoreStatics

/-- The counters, with `held` more locks of which `disabled` turn interrupts off. -/
structure Counts (start core : CoreStatics) (held disabled : ℕ) : Prop where
  lockCount : core.lockCount.toNat = start.lockCount.toNat + held
  disableCount : core.interruptsDisableCount.toNat = start.interruptsDisableCount.toNat + disabled
  interruptFlag : core.interruptFlag = (start.interruptFlag && disabled = 0)
  interruptCount : core.interruptCount = start.interruptCount

/-- The counter of disabled interrupts says whether they are. -/
def Consistent (core : CoreStatics) : Prop :=
  core.interruptFlag = (core.interruptsDisableCount.toNat = 0 && !core.inInterrupt)

/-- One more lock can be counted. -/
def HasRoom (core : CoreStatics) : Prop :=
  core.lockCount.toNat + 1 < 2 ^ 32 ∧ core.interruptsDisableCount.toNat + 1 < 2 ^ 64

variable {start core : CoreStatics} {held disabled : ℕ}

theorem toNat_add_one {n : UInt64} (h : n.toNat + 1 < 2 ^ 64) : (n + 1).toNat = n.toNat + 1 := by
  rw [UInt64.toNat_add]
  exact Nat.mod_eq_of_lt h

theorem Counts.enterLock (h : Counts start core held disabled) (hroom : core.HasRoom) (b : Bool) :
    Counts start (core.enterLock b) (held + 1) (disabled + b.toNat) := by
  have hlock : (core.lockCount + 1).toNat = start.lockCount.toNat + (held + 1) := by
    rw [UInt32.toNat_add, ← add_assoc, ← h.lockCount]
    exact Nat.mod_eq_of_lt hroom.1
  cases b with
  | false => exact ⟨hlock, h.disableCount, h.interruptFlag, h.interruptCount⟩
  | true =>
    refine ⟨hlock, ?_, ?_, h.interruptCount⟩
    · show (core.interruptsDisableCount + 1).toNat = _
      rw [toNat_add_one hroom.2, h.disableCount]
      rfl
    · show false = _
      simp

theorem Counts.exitLock (hstart : start.Consistent) (b : Bool)
    (h : Counts start core (held + 1) (disabled + b.toNat)) : Counts start (core.exitLock b) held disabled := by
  have hlock : (core.lockCount - 1).toNat = start.lockCount.toNat + held := by
    have hle : (1 : UInt32) ≤ core.lockCount := by
      rw [UInt32.le_iff_toNat_le, h.lockCount]
      exact Nat.le_add_left 1 _
    rw [UInt32.toNat_sub_of_le _ _ hle, h.lockCount]
    rfl
  cases b with
  | false => exact ⟨hlock, h.disableCount, h.interruptFlag, h.interruptCount⟩
  | true =>
    have hcount : core.interruptsDisableCount.toNat = start.interruptsDisableCount.toNat + (disabled + 1) :=
      h.disableCount
    have hle : (1 : UInt64) ≤ core.interruptsDisableCount := by
      rw [UInt64.le_iff_toNat_le, hcount]
      exact Nat.le_add_left 1 _
    refine ⟨hlock, ?_, ?_, h.interruptCount⟩
    · show (core.interruptsDisableCount - 1).toNat = _
      rw [UInt64.toNat_sub_of_le _ _ hle, hcount]
      rfl
    · -- interrupts are on again if this was the last one to turn them off, and they were on
      have hone : core.interruptsDisableCount = 1 ↔ start.interruptsDisableCount.toNat = 0 ∧ disabled = 0 := by
        rw [← UInt64.toNat_inj, hcount]
        show _ = 1 ↔ _
        omega
      have hflag : core.interruptFlag = false := by
        rw [h.interruptFlag]
        simp
      have hinterrupt : core.inInterrupt = start.inInterrupt := by rw [inInterrupt, h.interruptCount, inInterrupt]
      show ((decide (core.interruptsDisableCount = 1) && !core.inInterrupt) || core.interruptFlag) = _
      rw [hflag, hinterrupt, Bool.or_false, hstart, decide_eq_decide.2 hone, Bool.decide_and]
      cases start.inInterrupt <;> simp

theorem Counts.refl (core : CoreStatics) : Counts core core 0 0 := ⟨rfl, rfl, by simp, rfl⟩
end CoreStatics

/-! ## Locks of either kind -/

/-- A lock. -/
inductive Cell where
  | ticket (l : UnsafeTicketLock)
  | readWrite (c : ReadWriteCell)
  deriving DecidableEq, Repr

variable {reason : LockReason}
namespace Cell

def preemtable : Cell → Bool
  | ticket l => l.preemtable
  | readWrite c => c.preemtable

/-- `LockCell::lock` -/
def lock : Cell → CoreStatics → Checked (LockReason × Cell × CoreStatics)
  | ticket l, core => do
    let (reason, l, core) ← l.lock coreInterruptState core
    return (reason, ticket l, core)
  | readWrite c, core => do
    let (c, core) ← c.lock coreInterruptState core
    return (.acquired, readWrite c, core)

/-- `RWLockCell::read`, which only a `ReadWriteCell` has. -/
def read : Cell → CoreStatics → Checked (Cell × CoreStatics)
  | ticket _, _ => .error .undefined
  | readWrite c, core => do
    let (c, core) ← c.read coreInterruptState core
    return (readWrite c, core)

/-- `LockCellInternal::unlock` -/
def unlock : Cell → CoreStatics → Checked (Cell × CoreStatics)
  | ticket l, core => do
    let (l, core) ← l.unlock coreInterruptState core
    return (ticket l, core)
  | readWrite c, core => do
    let (c, core) ← c.unlock coreInterruptState core
    return (readWrite c, core)

/-- `RWCellInternal::release_read` -/
def releaseRead : Cell → CoreStatics → Checked (Cell × CoreStatics)
  | ticket _, _ => .error .undefined
  | readWrite c, core => do
    let (c, core) ← c.releaseRead coreInterruptState core
    return (readWrite c, core)

def shatterPermanent : Cell → Cell
  | ticket l => ticket l.shatterPermanent
  | readWrite c => readWrite c.shatterPermanent

@[simp] theorem preemtable_shatterPermanent (c : Cell) : c.shatterPermanent.preemtable = c.preemtable := by
  cases c <;> rfl

/-- `lock` does not wait for a lock that is shattered; a `ReadWriteCell` is only reset. -/
def shattered : Cell → Bool
  | ticket l => l.shattered
  | readWrite _ => false

/-- The state of a lock with `w` guards from `lock` and `r` from `read`. -/
def Fits : Cell → (w r : ℕ) → Prop
  | ticket l, w, r =>
    r = 0 ∧ (w = 0 ∨ w = 1 ∧ l.owner ≠ UnsafeTicketLock.NO_OWNER ∧ l.currentTicket ≠ l.nextTicket)
  | readWrite c, w, r => w = 0 ∧ (r = 0 ∨ r ≤ c.accessCount) ∨ w = 1 ∧ r = 0 ∧ c.accessCount = -1

theorem fits_zero (c : Cell) : c.Fits 0 0 := by
  cases c with
  | ticket l => exact ⟨rfl, .inl rfl⟩
  | readWrite c => exact .inl ⟨rfl, .inl rfl⟩

variable {c c' : Cell} {core core' : CoreStatics} {w r : ℕ}

theorem coreId_ne (n : UInt8) : n.toUInt16 ≠ UnsafeTicketLock.NO_OWNER := by
  intro h
  have hn : n.toUInt16.toNat = 0xFFFF := congrArg UInt16.toNat h
  rw [UInt8.toNat_toUInt16] at hn
  have := n.toNat_lt
  omega

/-- **A lock that is granted.** -/
theorem Fits.lock (hfits : c.Fits w r) (hwhole : c.shattered = false) (h : c.lock core = .ok (reason, c', core')) :
    reason = .acquired ∧ c'.Fits (w + 1) r ∧ c'.preemtable = c.preemtable ∧ core' = core.enterLock (!c.preemtable) := by
  cases c with
  | ticket l =>
    have hshattered : ¬ l.shattered = true := eq_false_iff.1 hwhole
    obtain ⟨⟨reason, l', core'⟩, hlock, hret⟩ := bind_eq_ok.1 h
    cases pure_eq_ok.1 hret
    unfold UnsafeTicketLock.lock at hlock
    rw [if_neg hshattered] at hlock
    split_ifs at hlock with hinterrupt hturn howner
    cases hlock
    have hfree : w = 0 := hfits.2.resolve_right fun hheld => hheld.2.2 hturn
    refine ⟨rfl, ⟨hfits.1, .inr ⟨by rw [hfree], coreId_ne _, ?_⟩⟩, rfl, rfl⟩
    show l.currentTicket ≠ l.nextTicket + 1
    rw [hturn]
    intro hself
    have hmod : l.nextTicket.toNat = (l.nextTicket.toNat + 1) % 2 ^ 64 :=
      (congrArg UInt64.toNat hself).trans (UInt64.toNat_add _ _)
    omega
  | readWrite c =>
    obtain ⟨⟨c', core'⟩, hlock, hret⟩ := bind_eq_ok.1 h
    cases pure_eq_ok.1 hret
    unfold ReadWriteCell.lock at hlock
    split_ifs at hlock with hinterrupt hfree
    cases hlock
    refine ⟨rfl, .inr ?_, rfl, rfl⟩
    obtain ⟨rfl, hr⟩ | ⟨-, -, hwriter⟩ := hfits
    · exact ⟨rfl, by omega, rfl⟩
    · omega

/-- **A read that is granted.** -/
theorem Fits.read (hfits : c.Fits w r) (h : c.read core = .ok (c', core')) :
    c'.Fits w (r + 1) ∧ c'.preemtable = c.preemtable ∧ core' = core.enterLock false := by
  cases c with
  | ticket l => cases h
  | readWrite c =>
    obtain ⟨⟨c', core'⟩, hread, hret⟩ := bind_eq_ok.1 h
    cases pure_eq_ok.1 hret
    unfold ReadWriteCell.read at hread
    split_ifs at hread with hwriter hroom
    cases hread
    refine ⟨.inl ?_, rfl, rfl⟩
    obtain ⟨rfl, hr⟩ | ⟨-, -, hwrites⟩ := hfits
    · refine ⟨rfl, .inr ?_⟩
      show ((r + 1 : ℕ) : ℤ) ≤ c.accessCount + 1
      omega
    · omega

/-- The guard of a lock can be dropped. -/
theorem Fits.unlock (hfits : c.Fits (w + 1) r) (core : CoreStatics) :
    ∃ c', c.unlock core = .ok (c', core.exitLock (!c.preemtable)) ∧ c'.Fits w r ∧ c'.preemtable = c.preemtable := by
  cases c with
  | ticket l =>
    obtain ⟨hr, hheld⟩ := hfits
    obtain ⟨hw, howner, -⟩ := hheld.resolve_left (Nat.succ_ne_zero w)
    have hlocked : ¬ (l.isUnlocked && !l.shattered) = true := by
      rw [UnsafeTicketLock.isUnlocked, decide_eq_false howner]
      exact false_ne_true
    have hunlock : l.unlock coreInterruptState core = .ok _ := if_neg hlocked
    refine ⟨ticket { l with owner := UnsafeTicketLock.NO_OWNER, currentTicket := l.currentTicket + 1 }, ?_,
      ⟨hr, .inl (Nat.succ.inj hw)⟩, rfl⟩
    rw [Cell.unlock, hunlock]
    rfl
  | readWrite c =>
    obtain ⟨hw, -⟩ | ⟨hw, rfl, hcount⟩ := hfits
    · exact absurd hw (Nat.succ_ne_zero w)
    · have hunlock : c.unlock coreInterruptState core = .ok _ := if_pos hcount
      refine ⟨readWrite { c with accessCount := 0 }, ?_, .inl ⟨Nat.succ.inj hw, .inl rfl⟩, rfl⟩
      rw [Cell.unlock, hunlock]
      rfl

theorem Fits.releaseRead (hfits : c.Fits w (r + 1)) (core : CoreStatics) :
    ∃ c', c.releaseRead core = .ok (c', core.exitLock false) ∧ c'.Fits w r ∧ c'.preemtable = c.preemtable := by
  cases c with
  | ticket l => exact absurd hfits.1 (Nat.succ_ne_zero r)
  | readWrite c =>
    obtain ⟨hw, hr⟩ | ⟨-, hr, -⟩ := hfits
    · have hcount : ((r + 1 : ℕ) : ℤ) ≤ c.accessCount := hr.resolve_left (Nat.succ_ne_zero r)
      have hsome : 1 ≤ c.accessCount := by omega
      have hrelease : c.releaseRead coreInterruptState core = .ok _ := if_pos hsome
      have hleft : (r : ℤ) ≤ c.accessCount - 1 := by omega
      refine ⟨readWrite { c with accessCount := c.accessCount - 1 }, ?_, .inl ⟨hw, .inr hleft⟩, rfl⟩
      rw [Cell.releaseRead, hrelease]
      rfl
    · exact absurd hr (Nat.succ_ne_zero r)

/-- A ticket lock may be shattered at any time, a `ReadWriteCell` when it has no guards. -/
theorem Fits.shatterPermanent (hfits : c.Fits w r) (hfree : ∀ rw, c = readWrite rw → w = 0 ∧ r = 0) :
    c.shatterPermanent.Fits w r := by
  cases c with
  | ticket l => exact hfits
  | readWrite c =>
    obtain ⟨rfl, rfl⟩ := hfree c rfl
    exact fits_zero _
end Cell

/-! ## Nested guards -/

/-- `LockCellGuard` and `ReadCellGuard` -/
inductive Guard where
  | lock (index : ℕ) (reason : LockReason)
  | read (index : ℕ)
  deriving DecidableEq, Repr

namespace Guard

def isLockOf (i : ℕ) : Guard → Bool
  | lock j _ => j = i
  | read _ => false

def isReadOf (i : ℕ) : Guard → Bool
  | lock _ _ => false
  | read j => j = i

/-- Interrupts are off while the guard is live; reading does not turn them off. -/
def disables (cells : ℕ → Cell) : Guard → Bool
  | lock i _ => !(cells i).preemtable
  | read _ => false
end Guard

/-- A core, its locks, and the live guards, the last one taken first. -/
structure LockedCore where
  core : CoreStatics
  cells : ℕ → Cell
  guards : List Guard

/-- What the code on the core does with locks. -/
inductive LockCall where
  | lock (i : ℕ)
  | read (i : ℕ)
  /-- the last guard is dropped -/
  | drop
  | shatter (i : ℕ)
  deriving DecidableEq, Repr

namespace LockedCore
variable (s : LockedCore)

/-- The guards from `lock` of a lock. -/
def writers (i : ℕ) : ℕ := s.guards.countP (Guard.isLockOf i)

/-- The guards from `read` of a lock. -/
def readers (i : ℕ) : ℕ := s.guards.countP (Guard.isReadOf i)

/-- The guards that keep interrupts off. -/
def disabling : ℕ := s.guards.countP (Guard.disables s.cells)

/-- A call changes one lock, the core and the guards. -/
def set (i : ℕ) (guards : List Guard) (next : Cell × CoreStatics) : LockedCore :=
  ⟨next.2, update s.cells i next.1, guards⟩

/-- The state after a guard is dropped. -/
def dropGuard (g : Guard) (gs : List Guard) : Checked LockedCore :=
  match g with
  | .lock i _ => s.set i gs <$> (s.cells i).unlock s.core
  | .read i => s.set i gs <$> (s.cells i).releaseRead s.core

/-- Every counter is what it was at the start, plus the live guards. -/
def Balanced (start s : LockedCore) : Prop := start.core.Counts s.core s.guards.length s.disabling

/-- Code starts without guards of its own. -/
structure Start : Prop where
  guards : s.guards = []
  consistent : s.core.Consistent
end LockedCore

namespace LockCall

/-- The state after a call, if it returned. -/
def step : LockCall → LockedCore → Option LockedCore
  | lock i, s =>
    match (s.cells i).lock s.core with
    | .ok (reason, next) => some (s.set i (.lock i reason :: s.guards) next)
    | .error _ => none
  | read i, s => ((s.cells i).read s.core).toOption.map (s.set i (.read i :: s.guards))
  | drop, s =>
    match s.guards with
    | [] => none
    | g :: gs => (s.dropGuard g gs).toOption
  | shatter i, s => some { s with cells := update s.cells i (s.cells i).shatterPermanent }

/-- A guard is taken when its lock is granted, and dropped when it is live. -/
def Nested : LockCall → LockedCore → Prop
  | lock i, s => ∃ r, (s.cells i).lock s.core = .ok r
  | read i, s => ∃ r, (s.cells i).read s.core = .ok r
  | drop, s => s.guards ≠ []
  | shatter _, _ => True

/-- No lock is taken that is shattered, no `ReadWriteCell` is shattered that has guards, and the counters do
not overflow. -/
def Sound : LockCall → LockedCore → Prop
  | lock i, s => (s.cells i).shattered = false ∧ s.core.HasRoom
  | read _, s => s.core.HasRoom
  | drop, _ => True
  | shatter i, s => ∀ c, s.cells i = .readWrite c → s.writers i = 0 ∧ s.readers i = 0
end LockCall

/-! ## Whole runs -/

/-- What every call keeps: the counters are balanced, and every lock fits its guards. -/
structure LockedCore.Inv (start s : LockedCore) : Prop where
  balanced : start.Balanced s
  fits : ∀ i, (s.cells i).Fits (s.writers i) (s.readers i)

namespace LockedCore
variable {start s : LockedCore} {i : ℕ} {c : Cell} {core : CoreStatics} {gs : List Guard}

theorem Start.inv (hstart : s.Start) : s.Inv s := by
  have hempty := hstart.guards
  refine ⟨?_, fun i => ?_⟩
  · rw [Balanced, disabling, hempty]
    exact CoreStatics.Counts.refl _
  · rw [writers, readers, hempty]
    exact Cell.fits_zero _

/-- A lock whose kind stays the same keeps off interrupts as before. -/
theorem disables_update (hsame : c.preemtable = (s.cells i).preemtable) :
    Guard.disables (update s.cells i c) = Guard.disables s.cells := by
  funext g
  cases g with
  | read j => rfl
  | lock j reason =>
    show (!(update s.cells i c j).preemtable) = _
    obtain rfl | hne := eq_or_ne j i
    · rw [update_self, hsame]
      rfl
    · rw [update_of_ne hne]
      rfl

theorem balanced_set (hsame : c.preemtable = (s.cells i).preemtable)
    (hcounts : start.core.Counts core gs.length (gs.countP (Guard.disables s.cells))) :
    start.Balanced (s.set i gs (c, core)) := by
  rw [← disables_update hsame] at hcounts
  exact hcounts

/-- Other locks keep their guards when a guard of `i` comes or goes. -/
theorem fits_update (hi : c.Fits (gs.countP (Guard.isLockOf i)) (gs.countP (Guard.isReadOf i)))
    (hother : ∀ j ≠ i, (s.cells j).Fits (gs.countP (Guard.isLockOf j)) (gs.countP (Guard.isReadOf j))) (j : ℕ) :
    ((s.set i gs (c, core)).cells j).Fits ((s.set i gs (c, core)).writers j) ((s.set i gs (c, core)).readers j) := by
  show (update s.cells i c j).Fits (gs.countP (Guard.isLockOf j)) (gs.countP (Guard.isReadOf j))
  obtain rfl | hne := eq_or_ne j i
  · rw [update_self]
    exact hi
  · rw [update_of_ne hne]
    exact hother j hne

variable {j : ℕ}

theorem countP_lock_self : (Guard.lock i reason :: gs).countP (Guard.isLockOf i) = gs.countP (Guard.isLockOf i) + 1 :=
  countP_cons_of_pos (decide_eq_true rfl)

theorem countP_lock_of_ne (hne : j ≠ i) :
    (Guard.lock i reason :: gs).countP (Guard.isLockOf j) = gs.countP (Guard.isLockOf j) :=
  countP_cons_of_neg fun h => hne (of_decide_eq_true h).symm

theorem countP_lock_read : (Guard.lock i reason :: gs).countP (Guard.isReadOf j) = gs.countP (Guard.isReadOf j) :=
  countP_cons_of_neg false_ne_true

theorem countP_read_self : (Guard.read i :: gs).countP (Guard.isReadOf i) = gs.countP (Guard.isReadOf i) + 1 :=
  countP_cons_of_pos (decide_eq_true rfl)

theorem countP_read_of_ne (hne : j ≠ i) :
    (Guard.read i :: gs).countP (Guard.isReadOf j) = gs.countP (Guard.isReadOf j) :=
  countP_cons_of_neg fun h => hne (of_decide_eq_true h).symm

theorem countP_read_lock : (Guard.read i :: gs).countP (Guard.isLockOf j) = gs.countP (Guard.isLockOf j) :=
  countP_cons_of_neg false_ne_true

theorem countP_disables (cells : ℕ → Cell) (g : Guard) :
    (g :: gs).countP (Guard.disables cells) = gs.countP (Guard.disables cells) + (g.disables cells).toNat := by
  rw [countP_cons]
  cases g.disables cells <;> rfl

/-- **A lock is taken.** -/
theorem Inv.lock (hinv : start.Inv s) (hwhole : (s.cells i).shattered = false) (hroom : s.core.HasRoom)
    (hlock : (s.cells i).lock s.core = .ok (reason, c, core)) :
    start.Inv (s.set i (.lock i reason :: s.guards) (c, core)) := by
  obtain ⟨-, hfits, hsame, rfl⟩ := (hinv.fits i).lock hwhole hlock
  refine ⟨balanced_set hsame ?_, fits_update ?_ fun j hne => ?_⟩
  · rw [countP_disables]
    exact hinv.balanced.enterLock hroom _
  · rw [countP_lock_self, countP_lock_read]
    exact hfits
  · rw [countP_lock_of_ne hne, countP_lock_read]
    exact hinv.fits j

/-- **A lock is read.** -/
theorem Inv.read (hinv : start.Inv s) (hroom : s.core.HasRoom) (hread : (s.cells i).read s.core = .ok (c, core)) :
    start.Inv (s.set i (.read i :: s.guards) (c, core)) := by
  obtain ⟨hfits, hsame, rfl⟩ := (hinv.fits i).read hread
  refine ⟨balanced_set hsame ?_, fits_update ?_ fun j hne => ?_⟩
  · rw [countP_disables]
    exact hinv.balanced.enterLock hroom _
  · rw [countP_read_self, countP_read_lock]
    exact hfits
  · rw [countP_read_of_ne hne, countP_read_lock]
    exact hinv.fits j

/-- **A guard is dropped.** -/
theorem Inv.dropGuard {g : Guard} (hstart : start.core.Consistent) (hinv : start.Inv s) (hg : s.guards = g :: gs) :
    ∃ s', s.dropGuard g gs = .ok s' ∧ start.Inv s' := by
  obtain ⟨hbalanced, hfits⟩ := hinv
  rw [Balanced, disabling, hg, countP_disables] at hbalanced
  simp only [writers, readers, hg] at hfits
  cases g with
  | lock i reason =>
    have hi := hfits i
    rw [countP_lock_self, countP_lock_read] at hi
    obtain ⟨c, hunlock, hc, hsame⟩ := hi.unlock s.core
    have hdrop : s.dropGuard (.lock i reason) gs = .ok (s.set i gs (c, _)) :=
      congrArg (s.set i gs <$> ·) hunlock
    refine ⟨_, hdrop, balanced_set hsame (hbalanced.exitLock hstart _), fits_update hc fun j hne => ?_⟩
    · have hj := hfits j
      rw [countP_lock_of_ne hne, countP_lock_read] at hj
      exact hj
  | read i =>
    have hi := hfits i
    rw [countP_read_self, countP_read_lock] at hi
    obtain ⟨c, hrelease, hc, hsame⟩ := hi.releaseRead s.core
    have hdrop : s.dropGuard (.read i) gs = .ok (s.set i gs (c, _)) :=
      congrArg (s.set i gs <$> ·) hrelease
    refine ⟨_, hdrop, balanced_set hsame (hbalanced.exitLock hstart _), fits_update hc fun j hne => ?_⟩
    · have hj := hfits j
      rw [countP_read_of_ne hne, countP_read_lock] at hj
      exact hj

/-- **A lock is shattered.** -/
theorem Inv.shatter (hinv : start.Inv s) (hfree : ∀ c, s.cells i = .readWrite c → s.writers i = 0 ∧ s.readers i = 0) :
    start.Inv { s with cells := update s.cells i (s.cells i).shatterPermanent } := by
  exact ⟨balanced_set (Cell.preemtable_shatterPermanent _) hinv.balanced,
    fits_update ((hinv.fits i).shatterPermanent hfree) fun j _ => hinv.fits j⟩
end LockedCore

open LockedCore in
/-- A call keeps the invariant. -/
theorem LockCall.step_inv {start : LockedCore} (hstart : start.core.Consistent) (call : LockCall) (s : LockedCore)
    (hinv : start.Inv s) (hcall : call.Nested s ∧ call.Sound s) : ∃ s' ∈ call.step s, start.Inv s' := by
  obtain ⟨hnested, hsound⟩ := hcall
  cases call with
  | lock i =>
    obtain ⟨⟨reason, c, core⟩, hlock⟩ := hnested
    refine ⟨_, ?_, hinv.lock hsound.1 hsound.2 hlock⟩
    rw [step, hlock]
    rfl
  | read i =>
    obtain ⟨⟨c, core⟩, hread⟩ := hnested
    refine ⟨_, ?_, hinv.read hsound hread⟩
    rw [step, hread]
    rfl
  | drop =>
    obtain ⟨g, gs, hg⟩ := exists_cons_of_ne_nil hnested
    obtain ⟨s', hdrop, hinv'⟩ := hinv.dropGuard hstart hg
    refine ⟨s', ?_, hinv'⟩
    rw [step, hg]
    dsimp only
    rw [hdrop]
    rfl
  | shatter i => exact ⟨_, rfl, hinv.shatter hsound⟩

/-- **Locks are balanced** over every nested run in which no shattered lock is taken and no `ReadWriteCell`
with guards is shattered. -/
theorem balanced_of_sound {start : LockedCore} {calls : List LockCall} (hstart : start.Start)
    (hnested : Along LockCall.step LockCall.Nested calls start)
    (hsound : Along LockCall.step LockCall.Sound calls start) :
    Safe LockCall.step start.Balanced calls start := by
  have hsafe := safe_of_along (LockCall.step_inv hstart.consistent) hstart.inv (hnested.and hsound)
  exact hsafe.mono fun s hinv => hinv.balanced

/-- A core with interrupts on, a lock that turns them off, and a `ReadWriteCell`. -/
def freshCore : LockedCore where
  core := ⟨0, 0, 0, 0, true⟩
  cells i := if i = 0 then .ticket .newNonPreemtable else .readWrite .new
  guards := []

theorem freshCore_start : freshCore.Start := ⟨rfl, rfl⟩

/-- The ticket lock is shattered while it is held, below a reader. -/
theorem balanced_freshCore :
    Safe LockCall.step freshCore.Balanced [.read 1, .lock 0, .shatter 0, .drop, .drop] freshCore := by
  refine balanced_of_sound freshCore_start ⟨⟨_, rfl⟩, fun s hs => ?_⟩ ⟨⟨by decide, by decide⟩, fun s hs => ?_⟩
  · cases mem_unique hs rfl
    refine ⟨⟨_, rfl⟩, fun s hs => ?_⟩
    cases mem_unique hs rfl
    refine ⟨trivial, fun s hs => ?_⟩
    cases mem_unique hs rfl
    refine ⟨cons_ne_nil _ _, fun s hs => ?_⟩
    cases mem_unique hs rfl
    exact ⟨cons_ne_nil _ _, fun _ _ => trivial⟩
  · cases mem_unique hs rfl
    refine ⟨⟨rfl, by decide, by decide⟩, fun s hs => ?_⟩
    cases mem_unique hs rfl
    refine ⟨fun c hc => Cell.noConfusion hc, fun s hs => ?_⟩
    cases mem_unique hs rfl
    exact ⟨trivial, fun _ _ => ⟨trivial, fun _ _ => trivial⟩⟩

/-- A guard of a shattered lock is taken and dropped: both counters underflow. -/
theorem unbalanced_freshCore :
    freshCore.Start ∧ Along LockCall.step LockCall.Nested [.shatter 0, .lock 0, .drop] freshCore ∧
      ∃ s ∈ runFrom LockCall.step [.shatter 0, .lock 0, .drop] freshCore, s.guards = [] ∧
        s.core.lockCount ≠ freshCore.core.lockCount ∧
        s.core.interruptsDisableCount ≠ freshCore.core.interruptsDisableCount ∧ ¬ freshCore.Balanced s := by
  refine ⟨freshCore_start, ⟨trivial, fun s hs => ?_⟩, _, rfl, rfl, by decide, by decide, fun h => ?_⟩
  · cases mem_unique hs rfl
    refine ⟨⟨_, rfl⟩, fun s hs => ?_⟩
    cases mem_unique hs rfl
    exact ⟨cons_ne_nil _ _, fun _ _ => trivial⟩
  · exact absurd h.lockCount (by decide)
end WasabiOS
