import WasabiOS.Kernel.PageAllocator

/-!
# Kernel/TaskSystem — the task system of a core

One core: the data of its `TaskSystem`, its APIC timer, and the counter all cores draw handles from.
A context switch does not return to its caller; `resumeTask` and what calls it return the state the
core goes on with.

Pages for a stack come from allocators of their own, so what they answered is an argument of
`launchTask`.  A closure is its size, alignment and vtable.
-/

open Machinery Prog
namespace WasabiOS

/-! ## The timer -/

/-- The different interrupt vectors used by the kernel -/
inductive InterruptVector where
  | contextSwitch
  | spurious
  | nop
  | test
  deriving DecidableEq, Repr

/-- timer related errors -/
inductive TimerError where
  | missingInterruptVector
  | timerRunning
  deriving DecidableEq, Repr

/-- the current state of the timer -/
structure Timer where
  /-- The clockspeed of the timer in mhz -/
  mhz : ℕ
  /-- the interrupt vector triggerd by the timer -/
  interruptVector : Option InterruptVector
  isRunning : Bool
  deriving DecidableEq, Repr

namespace Timer

/-- enables an existing interrupt handler to handle timers -/
def enableInterruptHander (vector : InterruptVector) : Prog Timer TimerError (Option InterruptVector) := do
  let timer ← Prog.get
  if timer.isRunning then Prog.throw .timerRunning
  else
    Prog.put { timer with interruptVector := some vector }
    return timer.interruptVector

/-- starts the timer in periodic mode -/
def start : Prog Timer TimerError Unit := do
  let timer ← Prog.get
  if timer.isRunning then Prog.throw .timerRunning
  else if timer.interruptVector = none then Prog.throw .missingInterruptVector
  else Prog.put { timer with isRunning := true }

/-- Stops the apic timer -/
def stop (timer : Timer) : Timer := { timer with isRunning := false }
end Timer

/-! ## Tasks -/

/-- The processor flags `launch_task` sets, and the rest of the register. -/
structure RFlags where
  interruptFlag : Bool
  overflowFlag : Bool
  signFlag : Bool
  zeroFlag : Bool
  auxiliaryCarryFlag : Bool
  parityFlag : Bool
  carryFlag : Bool
  others : UInt64
  deriving DecidableEq, Repr

/-- What the processor pushes on an interrupt. -/
structure InterruptStackFrame where
  instructionPointer : ℕ
  codeSegment : UInt16
  cpuFlags : RFlags
  stackPointer : ℕ
  stackSegment : UInt16
  deriving DecidableEq, Repr

/-- State of all basic registers -/
structure InterruptRegisterState where
  rax : UInt64 := 0
  rbx : UInt64 := 0
  rcx : UInt64 := 0
  rdx : UInt64 := 0
  rsi : UInt64 := 0
  rdi : UInt64 := 0
  rbp : UInt64 := 0
  r8 : UInt64 := 0
  r9 : UInt64 := 0
  r10 : UInt64 := 0
  r11 : UInt64 := 0
  r12 : UInt64 := 0
  r13 : UInt64 := 0
  r14 : UInt64 := 0
  r15 : UInt64 := 0
  deriving DecidableEq, Repr

/-- The state of an interrupted task -/
structure TaskInterrupt where
  stackFrame : InterruptStackFrame
  registers : InterruptRegisterState
  xsaveArea : Option (List UInt8)
  deriving DecidableEq, Repr

/-- The pages of a stack. -/
abbrev Stack := GuardedPages .Size4KiB

namespace Stack

/-- the first address of the pages -/
def startAddr (stack : Stack) : ℕ := stack.pages.firstPage.start.toNat

/-- the last address of the pages -/
def endAddr (stack : Stack) : ℕ := stack.startAddr + 4096 * stack.pages.count.toNat - 1

/-- Returns `true` if the `vaddr` is contained within `self` -/
def contains (stack : Stack) (vaddr : ℕ) : Bool := stack.startAddr ≤ vaddr && vaddr ≤ stack.endAddr
end Stack

/-- A Task in the task system -/
structure Task where
  /-- debug name for the task -/
  name : String
  /-- the stack used by the task, if it owns it -/
  stack : Option Stack
  /-- The cpu state the last time the task was interrupted; `none` while the task is executed -/
  lastInterrupt : Option TaskInterrupt
  deriving DecidableEq, Repr

/-- A unique handle for a task -/
abbrev TaskHandle := UInt64

/-- Describes a task that can be launched -/
structure TaskDefinition where
  /-- `size_of::<F>()` -/
  taskSize : ℕ
  /-- `align_of::<F>()` -/
  taskAlign : ℕ
  /-- the vtable of the closure -/
  taskMeta : UInt64
  /-- A debug name for the task -/
  name : String
  deriving DecidableEq, Repr

/-- What `launch_task` reads from the processor. -/
structure LaunchContext where
  /-- the address of `task_entry` -/
  taskEntry : ℕ
  rflags : RFlags
  codeSegment : UInt16
  deriving DecidableEq, Repr

/-- `addr.align_down(align)` -/
def alignDown (addr align : ℕ) : ℕ := addr - addr % align

namespace TaskDefinition

/-- Where the closure is written. -/
def startAddr (task : TaskDefinition) (stack : Stack) : ℕ :=
  alignDown (alignDown stack.endAddr 16 - task.taskSize) task.taskAlign

/-- The closure fits on the stack. -/
def fits (task : TaskDefinition) (stack : Stack) : Bool :=
  task.taskSize ≤ alignDown stack.endAddr 16 && stack.startAddr ≤ task.startAddr stack

/-- The state a task starts in: it looks as if it had been interrupted before its first instruction. -/
def launchInterruptFake (task : TaskDefinition) (cpu : LaunchContext) (stack : Stack) : TaskInterrupt where
  stackFrame :=
    { instructionPointer := cpu.taskEntry
      codeSegment := cpu.codeSegment
      cpuFlags := { cpu.rflags with
          interruptFlag := true
          overflowFlag := false
          signFlag := false
          zeroFlag := false
          auxiliaryCarryFlag := false
          parityFlag := false
          carryFlag := false }
      stackPointer := alignDown (task.startAddr stack) 16
      stackSegment := 0 }
  registers := { rdi := UInt64.ofNat (task.startAddr stack), rsi := task.taskMeta }
  xsaveArea := none
end TaskDefinition

/-! ## The system -/

/-- A core. -/
structure Core where
  /-- the handle of the task currently executing on this cpu-core. -/
  currentTask : TaskHandle
  /-- Whether the task system is running. -/
  running : Bool
  /-- Whether the interrupt timer is running. -/
  timerRunning : Bool
  /-- A list of all running tasks -/
  tasks : TaskHandle → Option Task
  /-- a list of tasks that are currentyl interrupted and can be resumed at a future time -/
  interrupted : List TaskHandle
  /-- Terminated but not yet dropped tasks. -/
  terminated : List Task
  /-- the timer of the core's APIC -/
  timer : Timer
  /-- the next unused handle, of all cores -/
  nextFreeHandle : TaskHandle
  /-- the core is in `cpu::halt` -/
  halted : Bool

namespace Core

/-- Register a task, or change it. -/
def setTask (handle : TaskHandle) (task : Option Task) (c : Core) : Core :=
  { c with tasks := Function.update c.tasks handle task }

/-- `interrupted.push_back(handle)` -/
def pushBack (handle : TaskHandle) (c : Core) : Core := { c with interrupted := c.interrupted ++ [handle] }

/-- What is left after `interrupted.pop_front()` -/
def popFront (c : Core) : Core := { c with interrupted := c.interrupted.tail }

/-- The core goes on with a task. -/
def switchTo (handle : TaskHandle) (c : Core) : Core := { c with currentTask := handle, halted := false }

/-- `terminated.push(task)` -/
def bury (task : Task) (c : Core) : Core := { c with terminated := c.terminated ++ [task] }

/-- `timer_running.store(..)` -/
def setTimerRunning (b : Bool) (c : Core) : Core := { c with timerRunning := b }

/-- `running.store(..)` -/
def setRunning (b : Bool) (c : Core) : Core := { c with running := b }

/-- The timer, after an operation. -/
def setTimer (timer : Timer) (c : Core) : Core := { c with timer := timer }

/-- `cpu::halt()` -/
def halt (c : Core) : Core := { c with halted := true }

/-- Before `init`, with handles taken by other cores. -/
def new (timer : Timer) (nextFreeHandle : TaskHandle) : Core where
  currentTask := 0
  running := false
  timerRunning := false
  tasks _ := none
  interrupted := []
  terminated := []
  timer := timer
  nextFreeHandle := nextFreeHandle
  halted := false
end Core

/-- Returns an unused handle -/
def TaskHandle.takeNext {ε : Type} : Prog Core ε TaskHandle := do
  let c ← Prog.get
  Prog.put { c with nextFreeHandle := c.nextFreeHandle + 1 }
  return c.nextFreeHandle

namespace TaskSystem
variable {ε : Type}

/-- The debug name for the core task of each CPU -/
def CPU_CORE_TASK_NAME : String := "cpu-core"

/-- Initializes the task system -/
def init : Prog Core ε Unit := do
  let currentTask ← TaskHandle.takeNext
  Prog.modify (Core.setTask currentTask (some ⟨CPU_CORE_TASK_NAME, none, none⟩))
  Prog.modify (Core.switchTo currentTask)

/-- The timer interval: a tenth of a second in ticks, as a `u32`. -/
def timerCycles (mhz : ℕ) : Checked ℕ :=
  if mhz * 1000000 < 2 ^ 64 ∧ mhz * 1000000 / 1000 < 2 ^ 32 ∧ mhz * 1000000 / 1000 * 100 < 2 ^ 32 then
    .ok (mhz * 1000000 / 1000 * 100)
  else .error .panic

/-- An operation of the timer. -/
def onTimer {α : Type} (op : Prog Timer TimerError α) : Prog Core TimerError α := zoom Core.timer Core.setTimer op

/-- Start/restart the APIC timer to switch between tasks -/
def startTimer : Prog Core TimerError (Option InterruptVector) := do
  let c ← Prog.get
  if c.timer.isRunning then
    assert c.timerRunning
    Prog.throw .timerRunning
  else
    assert (!c.timerRunning)
    let oldVec ← onTimer (Timer.enableInterruptHander .contextSwitch)
    let _ ← lift (timerCycles c.timer.mhz)
    Prog.modify (Core.setTimerRunning true)
    onTimer Timer.start
    return if oldVec = some .contextSwitch then none else oldVec

/-- Stop/pause the APIC timer -/
def stopTimer : Prog Core ε Unit := do
  let c ← Prog.get
  assert (c.timer.interruptVector = some .contextSwitch)
  Prog.modify (Core.setTimerRunning false)
  Prog.modify (Core.setTimer c.timer.stop)

/-- Enable the task system and starts the timer -/
def start : Prog Core TimerError (Option InterruptVector) := do
  let c ← Prog.get
  if c.running then return none
  else
    Prog.modify (Core.setRunning true)
    startTimer

/-- Pauses the task system. -/
def pause : Prog Core ε Unit := do
  let c ← Prog.get
  if c.running then
    Prog.modify (Core.setRunning false)
    stopTimer
  else return ()

/-- `start_timer(..).expect("Restarting timer should work.")` -/
def restartTimer : Prog Core ε Unit := do
  match ← attempt startTimer with
  | .ok _ => return ()
  | .error _ => Prog.panic

/-- Launch the defined task -/
def launchTask (task : TaskDefinition) (cpu : LaunchContext) (stack : Except MemError Stack) :
    Prog Core MemError TaskHandle := do
  let stack ← ofExcept stack
  assert (task.taskSize ≤ alignDown stack.endAddr 16)
  -- the closure is written to the end of the stack
  if stack.startAddr ≤ task.startAddr stack then
    let newHandle ← TaskHandle.takeNext
    let c ← Prog.get
    Prog.modify (Core.setTask newHandle (some ⟨task.name, some stack, some (task.launchInterruptFake cpu stack)⟩))
    assert (c.tasks newHandle).isNone
    Prog.modify (Core.pushBack newHandle)
    if c.running && !c.timerRunning then
      restartTimer
    return newHandle
  else crash .undefined

/-- resumes a task -/
def resumeTask (nextTaskHandle : TaskHandle) : Prog Core ε TaskInterrupt := do
  let c ← Prog.get
  let nextTask ← expect (c.tasks nextTaskHandle)
  let nextTaskInterrupt ← expect nextTask.lastInterrupt
  Prog.modify (Core.setTask nextTaskHandle (some { nextTask with lastInterrupt := none }))
  Prog.modify (Core.switchTo nextTaskHandle)
  return nextTaskInterrupt

/-- Terminates the current task.  Returns the state the core goes on with, unless it halts. -/
def terminateTask (inInterrupt : Bool) : Prog Core ε (Option TaskInterrupt) := do
  assert (!inInterrupt)
  let c ← Prog.get
  let currentTask ← expect (c.tasks c.currentTask)
  Prog.modify (Core.setTask c.currentTask none)
  assert currentTask.lastInterrupt.isNone
  Prog.modify (Core.bury currentTask)
  match c.interrupted with
  | nextTaskHandle :: _ =>
    Prog.modify Core.popFront
    return some (← resumeTask nextTaskHandle)
  | [] =>
    if c.timerRunning then stopTimer
    Prog.modify Core.halt
    return none

/-- Whether the stack pointer points into the stack of the task -/
def verifyInterruptFrame (stackFrame : InterruptStackFrame) (task : Task) : Bool :=
  match task.stack with
  | none => true
  | some stack => stack.contains stackFrame.stackPointer

/-- Called by the context-switch interrupt handler -/
def taskInterrupted (interrupt : TaskInterrupt) : Prog Core ε TaskInterrupt := do
  let c ← Prog.get
  let currentTask ← expect (c.tasks c.currentTask)
  assert (verifyInterruptFrame interrupt.stackFrame currentTask)
  assert currentTask.lastInterrupt.isNone
  Prog.modify (Core.setTask c.currentTask (some { currentTask with lastInterrupt := some interrupt }))
  Prog.modify (Core.pushBack c.currentTask)
  let c ← Prog.get
  let nextTaskHandle ← expect c.interrupted.head?
  Prog.modify Core.popFront
  resumeTask nextTaskHandle

/-- The context-switch interrupt handler used by the task system -/
def contextSwitchHandler (interrupt : TaskInterrupt) : Prog Core ε TaskInterrupt := do
  assert interrupt.stackFrame.cpuFlags.interruptFlag
  taskInterrupted interrupt
end TaskSystem
end WasabiOS
