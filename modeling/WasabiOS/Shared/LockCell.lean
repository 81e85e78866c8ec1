import Mathlib.Algebra.Order.Ring.Int
import WasabiOS.Machinery.Prog

/-!
# Shared/LockCell — locks that tell the core when they are held

`UnsafeTicketLock` and `ReadWriteCell` as one core sees them: nobody else runs, so a lock that is not granted
at once is never granted, and waiting for it diverges.  The core is what `InterruptState` says it is.

Counters are machine integers: atomics wrap, other arithmetic panics.  The count of a `ReadWriteCell` is an
integer; what leaves an `i64` panics.
-/

open Machinery
namespace WasabiOS

/-- What a lock needs of the core it is used on. -/
structure InterruptState (σ : Type) where
  /-- Gets the ID of the running core -/
  coreId : σ → UInt8
  /-- Returns `true` if we're currently in an interrupt -/
  inInterrupt : σ → Bool
  /-- Signal the kernel that a lock was taken -/
  enterLock : (disableInterrupts : Bool) → σ → σ
  /-- Signal the kernel that a lock was released -/
  exitLock : (enableInterrupts : Bool) → σ → σ

/-- How any Lock was acquired -/
inductive LockReason where
  | acquired
  | shattered
  deriving DecidableEq, Repr

/-! ## Ticket locks -/

/-- A Ticket lock that does not hold data or gives out guards. -/
structure UnsafeTicketLock where
  /-- the current ticket that can access the lock -/
  currentTicket : UInt64
  /-- the next ticket we give out -/
  nextTicket : UInt64
  /-- true if the lock is shattered -/
  shattered : Bool
  /-- the current core holding the lock -/
  owner : UInt16
  /-- set if the lock is *not* usable in interrupts -/
  preemtable : Bool
  deriving DecidableEq, Repr

namespace UnsafeTicketLock

/-- `!0`, which is no core -/
def NO_OWNER : UInt16 := 0xFFFF

def new : UnsafeTicketLock := ⟨0, 0, false, NO_OWNER, true⟩

def newNonPreemtable : UnsafeTicketLock := ⟨0, 0, false, NO_OWNER, false⟩

def isUnlocked (l : UnsafeTicketLock) : Bool := l.owner = NO_OWNER

/-- Blocks until lock is granted -/
def lock {σ : Type} (I : InterruptState σ) (l : UnsafeTicketLock) (core : σ) :
    Checked (LockReason × UnsafeTicketLock × σ) :=
  if (l.preemtable && I.inInterrupt core) = true then .error .panic
  else if l.shattered then .ok (.shattered, l, core)
  else if l.currentTicket = l.nextTicket then
    .ok (.acquired,
      { l with nextTicket := l.nextTicket + 1, owner := (I.coreId (I.enterLock (!l.preemtable) core)).toUInt16 },
      I.enterLock (!l.preemtable) core)
  -- "Deadlock detected"
  else if l.owner = (I.coreId (I.enterLock (!l.preemtable) core)).toUInt16 then .error .panic
  else .error .diverge

/-- Unlocks the lock -/
def unlock {σ : Type} (I : InterruptState σ) (l : UnsafeTicketLock) (core : σ) : Checked (UnsafeTicketLock × σ) :=
  if (l.isUnlocked && !l.shattered) = true then .error .panic
  else .ok ({ l with owner := NO_OWNER, currentTicket := l.currentTicket + 1 },
    I.exitLock (!l.preemtable) core)

/-- "Permanently" shatters the lock. -/
def shatterPermanent (l : UnsafeTicketLock) : UnsafeTicketLock := { l with shattered := true }
end UnsafeTicketLock

/-! ## Read-write locks -/

structure ReadWriteCell where
  /-- If positive, this is the number of readers that currently hold a guard; if -1, there is a writer with a
  guard -/
  accessCount : ℤ
  preemtable : Bool
  deriving DecidableEq, Repr

namespace ReadWriteCell

def new : ReadWriteCell := ⟨0, true⟩

def newNonPreemtable : ReadWriteCell := ⟨0, false⟩

def read {σ : Type} (I : InterruptState σ) (c : ReadWriteCell) (core : σ) : Checked (ReadWriteCell × σ) :=
  if c.accessCount < 0 then .error .diverge
  else if c.accessCount + 1 < 2 ^ 63 then .ok ({ c with accessCount := c.accessCount + 1 }, I.enterLock false core)
  else .error .panic

def lock {σ : Type} (I : InterruptState σ) (c : ReadWriteCell) (core : σ) : Checked (ReadWriteCell × σ) :=
  if (c.preemtable && I.inInterrupt core) = true then .error .panic
  else if c.accessCount = 0 then .ok ({ c with accessCount := -1 }, I.enterLock (!c.preemtable) core)
  else .error .diverge

def releaseRead {σ : Type} (I : InterruptState σ) (c : ReadWriteCell) (core : σ) : Checked (ReadWriteCell × σ) :=
  if 1 ≤ c.accessCount then .ok ({ c with accessCount := c.accessCount - 1 }, I.exitLock false core)
  else .error .panic

def unlock {σ : Type} (I : InterruptState σ) (c : ReadWriteCell) (core : σ) : Checked (ReadWriteCell × σ) :=
  if c.accessCount = -1 then .ok ({ c with accessCount := 0 }, I.exitLock (!c.preemtable) core)
  else .error .panic

def shatterPermanent (c : ReadWriteCell) : ReadWriteCell := { c with accessCount := 0 }
end ReadWriteCell
end WasabiOS
