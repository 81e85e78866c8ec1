import WasabiOS.Shared.LockCell

/-!
# Kernel/CoreLocal — the interrupt state of a core

The counters of `CoreStatics` that locks change, the count of the locks held that kernels under test keep, and
the interrupt flag of the processor.  The counters are atomics, which wrap.
-/

open Machinery
namespace WasabiOS

/-- core local entries -/
structure CoreStatics where
  /-- A unique id of this core -/
  coreId : UInt8
  /-- Current depth of interrupts -/
  interruptCount : UInt64
  /-- A count of how many times `disable_interrupts` has been called -/
  interruptsDisableCount : UInt64
  /-- The number of locks, currently held -/
  lockCount : UInt32
  /-- the flag of the processor -/
  interruptFlag : Bool
  deriving DecidableEq, Repr

namespace CoreStatics

def inInterrupt (core : CoreStatics) : Bool := 0 < core.interruptCount

/-- Tries to enable interrupts if possible. -/
def enableInterrupts (core : CoreStatics) : CoreStatics := { core with
    interruptsDisableCount := core.interruptsDisableCount - 1
    interruptFlag := (core.interruptsDisableCount = 1 && !core.inInterrupt) || core.interruptFlag }

/-- Disable interrupts and increment `interrupts_disable_count` -/
def disableInterruptsGuardless (core : CoreStatics) : CoreStatics := { core with
    interruptsDisableCount := core.interruptsDisableCount + 1
    interruptFlag := false }

def enterLock (disableInterrupts : Bool) (core : CoreStatics) : CoreStatics :=
  let core := { core with lockCount := core.lockCount + 1 }
  if disableInterrupts then core.disableInterruptsGuardless else core

def exitLock (enableInterrupts : Bool) (core : CoreStatics) : CoreStatics :=
  let core := { core with lockCount := core.lockCount - 1 }
  if enableInterrupts then core.enableInterrupts else core
end CoreStatics

/-- `CoreInterruptState` -/
def coreInterruptState : InterruptState CoreStatics where
  coreId := CoreStatics.coreId
  inInterrupt := CoreStatics.inInterrupt
  enterLock := CoreStatics.enterLock
  exitLock := CoreStatics.exitLock
end WasabiOS
