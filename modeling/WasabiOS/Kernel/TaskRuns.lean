import WasabiOS.Kernel.TaskSystem
import WasabiOS.Machinery.Run

/-!
# Kernel/TaskRuns — the task system over whole runs

An observer notes which tasks become ready (launched or interrupted), which are resumed and which have
ended, and with what state a task was last set aside.  `Sound` says what it must see: the current task
is registered and runs, every other one waits exactly once, and tasks are resumed in the order in which
they became ready.

Exactly two things break it.  The last task that terminates stays the current one although it is no
longer registered, and handles come round again after `2 ^ 64` of them.
-/

open Machinery Prog
open Function (update update_self update_of_ne)
namespace WasabiOS
open List Run
variable {o : Observed} {c : Core}

/-- A core, and what an observer has seen of it. -/
structure Observed where
  core : Core
  /-- the tasks in the order in which they became ready -/
  ready : List TaskHandle
  /-- the tasks in the order in which they were resumed -/
  resumed : List TaskHandle
  /-- the tasks that have terminated -/
  ended : List TaskHandle
  /-- the state a task was last set aside with -/
  saved : TaskHandle → Option TaskInterrupt

namespace Observed

/-- A task has been launched. -/
def launched (handle : TaskHandle) (interrupt : TaskInterrupt) (c : Core) (o : Observed) : Observed where
  core := c
  ready := o.ready ++ [handle]
  resumed := o.resumed
  ended := o.ended
  saved := update o.saved handle (some interrupt)

/-- The current task has been interrupted, and another one goes on. -/
def switched (interrupt : TaskInterrupt) (c : Core) (o : Observed) : Observed where
  core := c
  ready := o.ready ++ [o.core.currentTask]
  resumed := o.resumed ++ [c.currentTask]
  ended := o.ended
  saved := update o.saved o.core.currentTask (some interrupt)

/-- The current task has terminated, and another one goes on if there is one. -/
def terminated (next : Option TaskInterrupt) (c : Core) (o : Observed) : Observed where
  core := c
  ready := o.ready
  resumed := if next.isSome then o.resumed ++ [c.currentTask] else o.resumed
  ended := o.ended ++ [o.core.currentTask]
  saved := o.saved

/-- Nothing has happened to a task. -/
def become (c : Core) (o : Observed) : Observed := { o with core := c }

/-- After `init`. -/
def init (timer : Timer) (nextFreeHandle : TaskHandle) : Option Observed :=
  match (TaskSystem.init : Prog Core Empty Unit) (Core.new timer nextFreeHandle) with
  | .ok _ c => some { core := c, ready := [], resumed := [], ended := [], saved := fun _ => none }
  | _ => none
end Observed

/-- What happens to a task system. -/
inductive TaskCall where
  /-- `launch_task` -/
  | launch (task : TaskDefinition) (cpu : LaunchContext) (stack : Except MemError Stack)
  /-- a context switch, by the timer or asked for -/
  | switch (interrupt : TaskInterrupt)
  /-- `terminate_task` -/
  | terminate
  /-- `start` -/
  | start
  /-- `pause` -/
  | pause
  /-- another core takes a handle -/
  | elsewhere

namespace TaskCall

/-- The core after the call, and what was seen of it. -/
def step : TaskCall → Observed → Option Observed
  | launch task cpu stack, o =>
    match TaskSystem.launchTask task cpu stack o.core, stack with
    | .ok handle c, .ok stack => some (o.launched handle (task.launchInterruptFake cpu stack) c)
    | .ok _ c, .error _ => some (o.become c)
    | .err _ c, _ => some (o.become c)
    | .fault _, _ => none
  | switch interrupt, o =>
    match (TaskSystem.contextSwitchHandler interrupt : Prog Core Empty TaskInterrupt) o.core with
    | .ok _ c => some (o.switched interrupt c)
    | _ => none
  | terminate, o =>
    match (TaskSystem.terminateTask false : Prog Core Empty (Option TaskInterrupt)) o.core with
    | .ok next c => some (o.terminated next c)
    | _ => none
  | start, o => (TaskSystem.start o.core).state?.map o.become
  | pause, o => ((TaskSystem.pause : Prog Core Empty Unit) o.core).state?.map o.become
  | elsewhere, o => ((TaskHandle.takeNext : Prog Core Empty TaskHandle) o.core).state?.map o.become

/-- What the processor and the callers do: a closure fits on its stack, a context switch comes with
interrupts enabled, from the stack of the current task or from the halted core while its timer runs,
and `terminate_task` is called by a task. -/
def Legal : TaskCall → Observed → Prop
  | launch task _ (.ok stack), _ => task.fits stack = true
  | launch _ _ (.error _), _ => True
  | switch interrupt, o => interrupt.stackFrame.cpuFlags.interruptFlag = true ∧
      if o.core.halted then o.core.timer.isRunning = true
      else ∀ task ∈ o.core.tasks o.core.currentTask, TaskSystem.verifyInterruptFrame interrupt.stackFrame task = true
  | terminate, o => o.core.halted = false
  | start, _ | pause, _ | elsewhere, _ => True

instance (o : Observed) : ∀ call : TaskCall, Decidable (call.Legal o)
  | launch task _ (.ok stack) => inferInstanceAs (Decidable (task.fits stack = true))
  | launch _ _ (.error _) => inferInstanceAs (Decidable True)
  | switch _ => inferInstanceAs (Decidable (_ ∧ ite _ _ _))
  | terminate => inferInstanceAs (Decidable (o.core.halted = false))
  | start | pause | elsewhere => inferInstanceAs (Decidable True)

/-- The calls that keep the system sound: not the last task terminates, and no handle is given a second
time. -/
def Proper : TaskCall → Observed → Prop
  | launch _ _ (.ok _), o => o.core.tasks o.core.nextFreeHandle = none ∧ o.core.nextFreeHandle ∉ o.ended
  | terminate, o => o.core.interrupted ≠ []
  | _, _ => True
end TaskCall

/-- **The task system is sound.** -/
structure Observed.Sound (o : Observed) : Prop where
  /-- the current task is registered and has no saved state -/
  current : ∃ task, o.core.tasks o.core.currentTask = some task ∧ task.lastInterrupt = none
  /-- the queue holds every other task -/
  queue : ∀ handle, handle ∈ o.core.interrupted ↔ o.core.tasks handle ≠ none ∧ handle ≠ o.core.currentTask
  /-- …once -/
  nodup : o.core.interrupted.Nodup
  /-- …with the state it was set aside with -/
  saved : ∀ handle ∈ o.core.interrupted, ∃ task interrupt, o.core.tasks handle = some task ∧
    task.lastInterrupt = some interrupt ∧ o.saved handle = some interrupt
  /-- a terminated task is nowhere -/
  ended : ∀ handle ∈ o.ended, o.core.tasks handle = none ∧ handle ∉ o.core.interrupted ∧ handle ≠ o.core.currentTask
  /-- tasks are resumed in the order in which they became ready -/
  order : o.ready = o.resumed ++ o.core.interrupted

/-- The timer and the flags agree. -/
structure Core.Ticking (c : Core) : Prop where
  awake : c.halted = false
  timer : c.timer.isRunning = c.timerRunning
  running : c.timerRunning = true → c.running = true
  vector : c.running = true → c.timer.interruptVector = some .contextSwitch
  rate : ∃ cycles, TaskSystem.timerCycles c.timer.mhz = .ok cycles

/-! ## Setting a task aside, and resuming one -/

/-- Between two tasks: everybody who is registered waits. -/
structure Parked (tasks : TaskHandle → Option Task) (states : TaskHandle → Option TaskInterrupt)
    (gone waiting : List TaskHandle) : Prop where
  queue : ∀ handle, handle ∈ waiting ↔ tasks handle ≠ none
  nodup : waiting.Nodup
  saved : ∀ handle ∈ waiting, ∃ task interrupt, tasks handle = some task ∧
    task.lastInterrupt = some interrupt ∧ states handle = some interrupt
  ended : ∀ handle ∈ gone, tasks handle = none

variable {task : Task} {interrupt : TaskInterrupt} {handle : TaskHandle} {rest : List TaskHandle} {next : TaskHandle}
  {ε : Type}

/-- The current task is interrupted. -/
theorem Observed.Sound.park (h : o.Sound) (task : Task) (hi : task.lastInterrupt = some interrupt) :
    Parked (update o.core.tasks o.core.currentTask (some task))
      (update o.saved o.core.currentTask (some interrupt)) o.ended
      (o.core.interrupted ++ [o.core.currentTask]) where
  queue handle := by
    rw [mem_append, mem_singleton, h.queue]
    by_cases hh : handle = o.core.currentTask
    · subst hh
      rw [update_self]
      exact iff_of_true (.inr rfl) (by simp)
    · rw [update_of_ne hh]
      exact ⟨fun hor => hor.elim And.left fun heq => absurd heq hh, fun hne => .inl ⟨hne, hh⟩⟩
  nodup := concat_eq_append ▸ h.nodup.concat fun hmem => ((h.queue _).1 hmem).2 rfl
  saved handle hmem := by
    by_cases hh : handle = o.core.currentTask
    · subst hh
      rw [update_self, update_self]
      exact ⟨task, interrupt, rfl, hi, rfl⟩
    · rw [update_of_ne hh, update_of_ne hh]
      refine h.saved handle ((mem_append.1 hmem).resolve_right fun hlast => hh ?_)
      exact mem_singleton.1 hlast
  ended handle hmem := by
    obtain ⟨hnone, -, hne⟩ := h.ended handle hmem
    rw [update_of_ne hne]
    exact hnone

/-- The current task is removed. -/
theorem Observed.Sound.remove (h : o.Sound) : Parked (update o.core.tasks o.core.currentTask none) o.saved
      (o.ended ++ [o.core.currentTask]) o.core.interrupted where
  queue handle := by
    rw [h.queue]
    by_cases hh : handle = o.core.currentTask
    · subst hh
      rw [update_self]
      exact iff_of_false (fun hand => hand.2 rfl) fun hne => hne rfl
    · rw [update_of_ne hh]
      exact and_iff_left hh
  nodup := h.nodup
  saved handle hmem := by
    rw [update_of_ne ((h.queue handle).1 hmem).2]
    exact h.saved handle hmem
  ended handle hmem := by
    by_cases hh : handle = o.core.currentTask
    · rw [hh, update_self]
    · rw [update_of_ne hh]
      refine (h.ended handle ((mem_append.1 hmem).resolve_right fun hlast => hh ?_)).1
      exact mem_singleton.1 hlast

theorem TaskSystem.resumeTask_eq (htask : c.tasks handle = some task) (hi : task.lastInterrupt = some interrupt) :
    (TaskSystem.resumeTask handle : Prog Core ε TaskInterrupt) c =
      .ok interrupt ((c.setTask handle (some { task with lastInterrupt := none })).switchTo handle) := by
  simp only [TaskSystem.resumeTask, bind_apply, get_apply, andThen_ok, htask, expect_some, pure_apply, hi, modify_apply]

/-- The first of the queue goes on. -/
theorem Parked.resume {saved : TaskHandle → Option TaskInterrupt} {ended ready resumed : List TaskHandle}
    (h : Parked c.tasks saved ended (handle :: rest)) (hrest : c.interrupted = rest)
    (horder : ready = resumed ++ handle :: rest) :
    ∃ interrupt c', (TaskSystem.resumeTask handle : Prog Core Empty TaskInterrupt) c = .ok interrupt c' ∧
      c'.currentTask = handle ∧ (c.Ticking → c'.Ticking) ∧
      Observed.Sound ⟨c', ready, resumed ++ [handle], ended, saved⟩ := by
  obtain ⟨task, interrupt, htask, hi, -⟩ := h.saved handle mem_cons_self
  refine ⟨interrupt, _, TaskSystem.resumeTask_eq htask hi, rfl, fun ht => { ht with awake := rfl }, ?_⟩
  obtain ⟨hnotin, hnodup⟩ := nodup_cons.1 h.nodup
  subst hrest
  have hkeep : ∀ {other}, other ≠ handle →
      update c.tasks handle (some { task with lastInterrupt := none }) other = c.tasks other :=
    fun hne => update_of_ne hne ..
  refine ⟨⟨_, update_self .., rfl⟩, fun other => ?_, hnodup, fun other hmem => ?_, fun other hmem => ?_, ?_⟩
  · by_cases hother : other = handle
    · subst hother
      exact iff_of_false hnotin fun hand => hand.2 rfl
    · have hiff := h.queue other
      rw [mem_cons, or_iff_right hother] at hiff
      show other ∈ c.interrupted ↔ update c.tasks handle _ other ≠ none ∧ other ≠ handle
      rw [hkeep hother, and_iff_left hother]
      exact hiff
  · have hother : other ≠ handle := fun heq => hnotin (heq ▸ hmem)
    show ∃ task interrupt, update c.tasks handle _ other = some task ∧ _
    rw [hkeep hother]
    exact h.saved other (mem_cons_of_mem handle hmem)
  · have hnone := h.ended other hmem
    have hout : other ∉ handle :: c.interrupted := fun hin => (h.queue other).1 hin hnone
    obtain ⟨hother, hin⟩ := not_or.1 (mem_cons.not.1 hout)
    refine ⟨?_, hin, hother⟩
    show update c.tasks handle _ other = none
    rw [hkeep hother]
    exact hnone
  · exact horder.trans (append_cons resumed handle c.interrupted)

/-- A context switch sets the current task aside and resumes the first of the queue. -/
theorem TaskSystem.contextSwitchHandler_eq (hflag : interrupt.stackFrame.cpuFlags.interruptFlag = true)
    (htask : c.tasks c.currentTask = some task)
    (hverify : TaskSystem.verifyInterruptFrame interrupt.stackFrame task = true)
    (hlast : task.lastInterrupt = none) (hqueue : c.interrupted ++ [c.currentTask] = next :: rest) :
    (TaskSystem.contextSwitchHandler interrupt : Prog Core ε TaskInterrupt) c =
      TaskSystem.resumeTask next (((c.setTask c.currentTask
        (some { task with lastInterrupt := some interrupt })).pushBack c.currentTask).popFront) := by
  have hhead : (c.interrupted ++ [c.currentTask]).head? = some next := by rw [hqueue]; rfl
  simp only [TaskSystem.contextSwitchHandler, TaskSystem.taskInterrupted, bind_apply, hflag,
    assert_true, pure_apply, andThen_ok, get_apply, htask, expect_some,
    hverify, hlast, Option.isNone_none, modify_apply]
  simp only [Core.pushBack, Core.setTask, hhead, expect_some, pure_apply, andThen_ok, bind_apply, modify_apply]

/-- Termination of a task that is not the last one. -/
theorem TaskSystem.terminateTask_eq (htask : c.tasks c.currentTask = some task) (hlast : task.lastInterrupt = none)
    (hqueue : c.interrupted = next :: rest) :
    (TaskSystem.terminateTask false : Prog Core ε (Option TaskInterrupt)) c =
      (some <$> TaskSystem.resumeTask next) (((c.setTask c.currentTask none).bury task).popFront) := by
  simp only [TaskSystem.terminateTask, bind_apply, Bool.not_false, assert_true,
    pure_apply, andThen_ok, get_apply, htask, expect_some, hlast,
    Option.isNone_none, modify_apply, hqueue, map_apply]

/-- The last task leaves its handle behind. -/
theorem TaskSystem.terminateTask_last (hticking : c.Ticking)
    (htask : c.tasks c.currentTask = some task) (hlast : task.lastInterrupt = none)
    (hqueue : c.interrupted = []) :
    ∃ c', (TaskSystem.terminateTask false : Prog Core ε (Option TaskInterrupt)) c = .ok none c' ∧
      c'.tasks = update c.tasks c.currentTask none ∧ c'.currentTask = c.currentTask := by
  simp only [TaskSystem.terminateTask, bind_apply, Bool.not_false, assert_true,
    pure_apply, andThen_ok, get_apply, htask, expect_some, hlast,
    Option.isNone_none, modify_apply, hqueue]
  by_cases htimer : c.timerRunning = true
  · have hvector : (((c.setTask c.currentTask none).bury task).timer.interruptVector =
        some InterruptVector.contextSwitch) = True := eq_true (hticking.vector (hticking.running htimer))
    simp only [htimer, if_true, TaskSystem.stopTimer, bind_apply, get_apply, andThen_ok,
      hvector, decide_true, assert_true, pure_apply, modify_apply]
    exact ⟨_, rfl, rfl, rfl⟩
  · simp only [if_neg htimer]
    exact ⟨_, rfl, rfl, rfl⟩

/-- **A context switch** keeps the system sound. -/
theorem Observed.Sound.switch (h : o.Sound) (hticking : o.core.Ticking) (hlegal : (TaskCall.switch interrupt).Legal o) :
    ∃ o' ∈ (TaskCall.switch interrupt).step o, o'.Sound ∧ o'.core.Ticking := by
  obtain ⟨task, htask, hlast⟩ := h.current
  obtain ⟨hflag, hlegal⟩ := hlegal
  rw [if_neg (Bool.eq_false_iff.1 hticking.awake)] at hlegal
  have hpark := h.park { task with lastInterrupt := some interrupt } rfl
  obtain ⟨next, rest, hqueue⟩ : ∃ next rest, o.core.interrupted ++ [o.core.currentTask] = next :: rest :=
    exists_cons_of_ne_nil (append_ne_nil_of_right_ne_nil _ (cons_ne_nil _ _))
  rw [hqueue] at hpark
  have horder : o.ready ++ [o.core.currentTask] = o.resumed ++ next :: rest := by rw [h.order, append_assoc, hqueue]
  obtain ⟨resumed, c', hresume, hcurrent, hkeeps, hsound⟩ := Parked.resume (c := ((o.core.setTask o.core.currentTask
      (some { task with lastInterrupt := some interrupt })).pushBack o.core.currentTask).popFront)
    hpark (congrArg List.tail hqueue) horder
  have hstep := TaskSystem.contextSwitchHandler_eq (ε := Empty) hflag htask (hlegal task htask) hlast hqueue
  refine ⟨o.switched interrupt c', ?_, ?_, hkeeps { hticking with }⟩
  · simp only [TaskCall.step, hstep, hresume]
    rfl
  · rw [Observed.switched, hcurrent]
    exact hsound

/-- **The end of a task** keeps the system sound if another one waits. -/
theorem Observed.Sound.terminate (h : o.Sound) (hticking : o.core.Ticking) (hne : o.core.interrupted ≠ []) :
    ∃ o' ∈ TaskCall.terminate.step o, o'.Sound ∧ o'.core.Ticking := by
  obtain ⟨task, htask, hlast⟩ := h.current
  obtain ⟨next, rest, hqueue⟩ := exists_cons_of_ne_nil hne
  have hremove := h.remove
  rw [hqueue] at hremove
  obtain ⟨resumed, c', hresume, hcurrent, hkeeps, hsound⟩ := Parked.resume
    (c := ((o.core.setTask o.core.currentTask none).bury task).popFront) hremove
    (congrArg List.tail hqueue) (hqueue ▸ h.order)
  have hstep := TaskSystem.terminateTask_eq (ε := Empty) htask hlast hqueue
  rw [map_apply, hresume, andThen_ok] at hstep
  refine ⟨o.terminated (some resumed) c', ?_, ?_, hkeeps { hticking with }⟩
  · simp only [TaskCall.step, hstep]
    rfl
  · rw [Observed.terminated, hcurrent]
    exact hsound

/-- …and not otherwise. -/
theorem Observed.Sound.not_terminate (h : o.Sound) (hticking : o.core.Ticking)
    (hqueue : o.core.interrupted = []) : ¬ ∃ o' ∈ TaskCall.terminate.step o, o'.Sound := by
  rintro ⟨o', ho', hsound⟩
  obtain ⟨task, htask, hlast⟩ := h.current
  obtain ⟨c', hterminate, htasks, hcurrent⟩ := TaskSystem.terminateTask_last (ε := Empty) hticking htask hlast hqueue
  simp only [TaskCall.step, hterminate] at ho'
  cases ho'
  obtain ⟨task', htask', -⟩ := hsound.current
  simp only [Observed.terminated, htasks, hcurrent, update_self] at htask'
  exact absurd htask' (by simp)

/-! ## The timer -/

/-- The timer runs. -/
def Core.tick (c : Core) : Core := (c.setTimerRunning true).setTimer ⟨c.timer.mhz, some .contextSwitch, true⟩

theorem TaskSystem.startTimer_eq {cycles : ℕ} (hidle : c.timer.isRunning = false)
    (hoff : c.timerRunning = false) (hrate : TaskSystem.timerCycles c.timer.mhz = .ok cycles) :
    ∃ vector, TaskSystem.startTimer c = .ok vector c.tick := by
  simp only [TaskSystem.startTimer, TaskSystem.onTimer, Timer.enableInterruptHander, Timer.start,
    zoom, bind_apply, get_apply, put_apply, pure_apply, modify_apply,
    assert_true, lift_ok, andThen_ok, Core.setTimer, Core.setTimerRunning, hidle, hoff,
    hrate, Bool.not_false, Bool.false_eq_true, if_false, reduceCtorEq]
  exact ⟨_, rfl⟩

theorem Core.Ticking.tick (h : c.Ticking) (hrunning : c.running = true) : c.tick.Ticking :=
  ⟨h.awake, rfl, fun _ => hrunning, fun _ => rfl, h.rate⟩

/-- Tasks do not depend on the timer. -/
theorem Observed.Sound.become (h : o.Sound) (htasks : c.tasks = o.core.tasks)
    (hcurrent : c.currentTask = o.core.currentTask) (hqueue : c.interrupted = o.core.interrupted) :
    (o.become c).Sound where
  current := by
    rw [Observed.become, htasks, hcurrent]
    exact h.current
  queue := by
    rw [Observed.become, htasks, hcurrent, hqueue]
    exact h.queue
  nodup := by
    rw [Observed.become, hqueue]
    exact h.nodup
  saved := by
    rw [Observed.become, htasks, hqueue]
    exact h.saved
  ended := by
    rw [Observed.become, htasks, hcurrent, hqueue]
    exact h.ended
  order := by
    rw [Observed.become, hqueue]
    exact h.order

theorem Observed.Sound.start (h : o.Sound) (hticking : o.core.Ticking) :
    ∃ o' ∈ TaskCall.start.step o, o'.Sound ∧ o'.core.Ticking := by
  by_cases hrunning : o.core.running = true
  · refine ⟨o.become o.core, ?_, h.become rfl rfl rfl, hticking⟩
    simp only [TaskCall.step, TaskSystem.start, bind_apply, get_apply, andThen_ok,
      hrunning, if_true, pure_apply, Outcome.state?, Option.map_some, Option.mem_def]
  · have hoff : o.core.timerRunning = false := Bool.eq_false_iff.2 fun htimer => hrunning (hticking.running htimer)
    obtain ⟨cycles, hrate⟩ := hticking.rate
    obtain ⟨vector, hstart⟩ := TaskSystem.startTimer_eq (c := o.core.setRunning true)
      (hticking.timer.trans hoff) hoff hrate
    refine ⟨o.become (o.core.setRunning true).tick, ?_, h.become rfl rfl rfl,
      ⟨hticking.awake, rfl, fun _ => rfl, fun _ => rfl, hticking.rate⟩⟩
    simp only [TaskCall.step, TaskSystem.start, bind_apply, get_apply, andThen_ok,
      if_neg hrunning, modify_apply, hstart, Outcome.state?, Option.map_some, Option.mem_def]

theorem Observed.Sound.pause (h : o.Sound) (hticking : o.core.Ticking) :
    ∃ o' ∈ TaskCall.pause.step o, o'.Sound ∧ o'.core.Ticking := by
  by_cases hrunning : o.core.running = true
  · have hvector : ((o.core.setRunning false).timer.interruptVector =
      some InterruptVector.contextSwitch) = True := eq_true (hticking.vector hrunning)
    refine ⟨o.become (((o.core.setRunning false).setTimerRunning false).setTimer o.core.timer.stop), ?_,
      h.become rfl rfl rfl,
      ⟨hticking.awake, rfl, nofun,
        nofun, hticking.rate⟩⟩
    simp only [TaskCall.step, TaskSystem.pause, TaskSystem.stopTimer, bind_apply, get_apply,
      andThen_ok, hrunning, if_true, modify_apply, hvector, decide_true, assert_true,
      pure_apply, Outcome.state?, Option.map_some, Option.mem_def]
    rfl
  · refine ⟨o.become o.core, ?_, h.become rfl rfl rfl, hticking⟩
    simp only [TaskCall.step, TaskSystem.pause, bind_apply, get_apply, andThen_ok,
      if_neg hrunning, pure_apply, Outcome.state?, Option.map_some, Option.mem_def]

theorem Observed.Sound.elsewhere (h : o.Sound) (hticking : o.core.Ticking) :
    ∃ o' ∈ TaskCall.elsewhere.step o, o'.Sound ∧ o'.core.Ticking :=
  ⟨_, rfl, h.become rfl rfl rfl, { hticking with }⟩

/-! ## Launching a task -/

section Launch
variable {task : TaskDefinition} {stack : Stack} (cpu : LaunchContext)

/-- The core with a new task, before the timer is looked at. -/
def Core.withTask (task : TaskDefinition) (cpu : LaunchContext) (stack : Stack) (c : Core) : Core :=
  (({ c with nextFreeHandle := c.nextFreeHandle + 1 } : Core).setTask c.nextFreeHandle
    (some ⟨task.name, some stack, some (task.launchInterruptFake cpu stack)⟩)).pushBack c.nextFreeHandle

/-- A handle that is taken is a panic. -/
theorem TaskSystem.launchTask_taken (hfits : task.fits stack = true) (htaken : c.tasks c.nextFreeHandle ≠ none) :
    TaskSystem.launchTask task cpu (.ok stack) c = .fault .panic := by
  obtain ⟨hsize, hstart⟩ := Bool.and_eq_true_iff.1 hfits
  obtain ⟨old, hold⟩ := Option.ne_none_iff_exists'.1 htaken
  simp only [TaskSystem.launchTask, TaskHandle.takeNext, ofExcept_ok, bind_apply,
    pure_apply, andThen_ok, hsize, assert_true, if_pos (of_decide_eq_true hstart),
    get_apply, put_apply, modify_apply, hold, Option.isNone_some, assert_false,
    panic_apply, Outcome.andThen_fault]

theorem TaskSystem.launchTask_eq (hticking : c.Ticking) (hfits : task.fits stack = true)
    (hfree : c.tasks c.nextFreeHandle = none) :
    ∃ c', TaskSystem.launchTask task cpu (.ok stack) c = .ok c.nextFreeHandle c' ∧
      c'.tasks = (c.withTask task cpu stack).tasks ∧ c'.interrupted = c.interrupted ++ [c.nextFreeHandle] ∧
      c'.currentTask = c.currentTask ∧ c'.Ticking := by
  obtain ⟨hsize, hstart⟩ := Bool.and_eq_true_iff.1 hfits
  have hkeeps : (c.withTask task cpu stack).Ticking := { hticking with }
  have hlaunch : TaskSystem.launchTask task cpu (.ok stack) c = (if (c.running && !c.timerRunning) = true then
        TaskSystem.restartTimer >>= fun _ => pure c.nextFreeHandle
      else pure c.nextFreeHandle) (c.withTask task cpu stack) := by
    simp only [TaskSystem.launchTask, TaskHandle.takeNext, ofExcept_ok, bind_apply,
      pure_apply, andThen_ok, hsize, assert_true, if_pos (of_decide_eq_true hstart),
      get_apply, put_apply, modify_apply, hfree, Option.isNone_none]
    rfl
  by_cases hrestart : (c.running && !c.timerRunning) = true
  · obtain ⟨hrunning, hoff⟩ := Bool.and_eq_true_iff.1 hrestart
    have hoff : c.timerRunning = false := Bool.not_eq_true' _ ▸ hoff
    obtain ⟨cycles, hrate⟩ := hkeeps.rate
    obtain ⟨vector, hstart⟩ := TaskSystem.startTimer_eq (hkeeps.timer.trans hoff) hoff hrate
    refine ⟨(c.withTask task cpu stack).tick, ?_, rfl, rfl, rfl, hkeeps.tick hrunning⟩
    rw [hlaunch, if_pos hrestart, bind_apply, TaskSystem.restartTimer, bind_apply, attempt_ok hstart]
    rfl
  · refine ⟨c.withTask task cpu stack, ?_, rfl, rfl, rfl, hkeeps⟩
    rw [hlaunch, if_neg hrestart]
    rfl

/-- **A new task** keeps the system sound if its handle is new. -/
theorem Observed.Sound.launch (h : o.Sound) (hticking : o.core.Ticking) (hfits : task.fits stack = true)
    (hfree : o.core.tasks o.core.nextFreeHandle = none) (hnew : o.core.nextFreeHandle ∉ o.ended) :
    ∃ o' ∈ (TaskCall.launch task cpu (.ok stack)).step o, o'.Sound ∧ o'.core.Ticking := by
  obtain ⟨c', hlaunch, htasks, hqueue, hcurrent, hticking'⟩ := TaskSystem.launchTask_eq cpu hticking hfits hfree
  refine ⟨o.launched o.core.nextFreeHandle (task.launchInterruptFake cpu stack) c', ?_, ?_, hticking'⟩
  · simp only [TaskCall.step, hlaunch, Option.mem_def]
  have hne : o.core.nextFreeHandle ≠ o.core.currentTask := by
    intro heq
    obtain ⟨current, hcurrent, -⟩ := h.current
    exact Option.some_ne_none current (hcurrent.symm.trans (heq ▸ hfree))
  have hnotin : o.core.nextFreeHandle ∉ o.core.interrupted := fun hin => ((h.queue _).1 hin).1 hfree
  have hkeep : ∀ {handle}, handle ≠ o.core.nextFreeHandle →
      (o.core.withTask task cpu stack).tasks handle = o.core.tasks handle :=
    fun hh => update_of_ne hh ..
  have hset : (o.core.withTask task cpu stack).tasks o.core.nextFreeHandle =
      some ⟨task.name, some stack, some (task.launchInterruptFake cpu stack)⟩ := update_self ..
  refine ⟨?_, fun handle => ?_, ?_, fun handle hmem => ?_, fun handle hmem => ?_, ?_⟩
  · obtain ⟨current, hregistered, hlast⟩ := h.current
    refine ⟨current, ?_, hlast⟩
    simp only [Observed.launched, htasks, hcurrent, hkeep hne.symm, hregistered]
  · simp only [Observed.launched, htasks, hqueue, hcurrent, mem_append, mem_singleton, h.queue]
    by_cases hh : handle = o.core.nextFreeHandle
    · rw [hh, hset]
      exact iff_of_true (.inr rfl) ⟨Option.some_ne_none _, hne⟩
    · rw [hkeep hh, or_iff_left hh]
  · simp only [Observed.launched, hqueue]
    exact concat_eq_append ▸ h.nodup.concat hnotin
  · simp only [Observed.launched, htasks]
    by_cases hh : handle = o.core.nextFreeHandle
    · rw [hh, hset, update_self]
      exact ⟨_, _, rfl, rfl, rfl⟩
    · rw [hkeep hh, update_of_ne hh]
      simp only [Observed.launched, hqueue, mem_append, mem_singleton, or_iff_left hh] at hmem
      exact h.saved handle hmem
  · simp only [Observed.launched, htasks, hqueue, hcurrent, mem_append, mem_singleton]
    have hh : handle ≠ o.core.nextFreeHandle := fun heq => hnew (heq ▸ hmem)
    rw [hkeep hh, or_iff_left hh]
    exact h.ended handle hmem
  · simp only [Observed.launched, hqueue, h.order, append_assoc]

/-- …and not otherwise. -/
theorem Observed.Sound.not_launch (hticking : o.core.Ticking) (hfits : task.fits stack = true)
    (hold : ¬ (o.core.tasks o.core.nextFreeHandle = none ∧ o.core.nextFreeHandle ∉ o.ended)) :
    ¬ ∃ o' ∈ (TaskCall.launch task cpu (.ok stack)).step o, o'.Sound := by
  rintro ⟨o', ho', hsound⟩
  by_cases hfree : o.core.tasks o.core.nextFreeHandle = none
  · have hended : o.core.nextFreeHandle ∈ o.ended := not_not.1 fun hnew => hold ⟨hfree, hnew⟩
    obtain ⟨c', hlaunch, htasks, -, -, -⟩ := TaskSystem.launchTask_eq cpu hticking hfits hfree
    simp only [TaskCall.step, hlaunch] at ho'
    cases ho'
    have hnone := (hsound.ended _ hended).1
    simp only [Observed.launched, htasks, Core.withTask, Core.pushBack, Core.setTask, update_self] at hnone
    exact absurd hnone (by simp)
  · simp only [TaskCall.step, TaskSystem.launchTask_taken cpu hfits hfree] at ho'
    exact absurd ho' (Option.not_mem_none o')
end Launch

/-! ## Runs -/

variable {call : TaskCall}

theorem Observed.Sound.step (h : o.Sound) (hticking : o.core.Ticking) (hlegal : call.Legal o)
    (hproper : call.Proper o) : ∃ o' ∈ call.step o, o'.Sound ∧ o'.core.Ticking := by
  cases call with
  | launch task cpu stack =>
    cases stack with
    | error e => exact ⟨o.become o.core, rfl, h.become rfl rfl rfl, hticking⟩
    | ok stack => exact h.launch cpu hticking hlegal hproper.1 hproper.2
  | switch interrupt => exact h.switch hticking hlegal
  | terminate => exact h.terminate hticking hproper
  | start => exact h.start hticking
  | pause => exact h.pause hticking
  | elsewhere => exact h.elsewhere hticking

theorem Observed.Sound.proper (h : o.Sound) (hticking : o.core.Ticking) (hlegal : call.Legal o)
    (hsound : ∃ o' ∈ call.step o, o'.Sound) : call.Proper o := by
  cases call with
  | launch task cpu stack =>
    cases stack with
    | error e => trivial
    | ok stack =>
      by_contra hold
      exact Observed.Sound.not_launch cpu hticking hlegal hold hsound
  | terminate => exact fun hqueue => h.not_terminate hticking hqueue hsound
  | switch interrupt => trivial
  | start => trivial
  | pause => trivial
  | elsewhere => trivial

/-- **The task system over whole runs**: of all runs after `init`, exactly those are sound throughout in
which no last task terminates and no handle is given a second time. -/
theorem sound_iff {timer : Timer} {nextFreeHandle : TaskHandle} {calls : List TaskCall} {cycles : ℕ}
    (htimer : timer.isRunning = false) (hrate : TaskSystem.timerCycles timer.mhz = .ok cycles)
    (ho : o ∈ Observed.init timer nextFreeHandle)
    (hlegal : Along TaskCall.step TaskCall.Legal calls o) :
    Safe TaskCall.step Observed.Sound calls o ↔ Along TaskCall.step TaskCall.Proper calls o := by
  cases ho
  refine safe_iff_along_of_invariant (I := fun o => o.Sound ∧ o.core.Ticking) (fun o h => h.1)
    (fun call o h hl => ⟨fun hs => h.1.proper h.2 hl hs, fun hp => ?_⟩)
    (fun call o o' h hl hp ho' => ?_) ⟨?_, ?_⟩ hlegal
  · obtain ⟨o', ho', hs, -⟩ := h.1.step h.2 hl hp
    exact ⟨o', ho', hs⟩
  · obtain ⟨o'', ho'', hs⟩ := h.1.step h.2 hl hp
    cases Option.mem_unique ho' ho''
    exact hs
  · refine ⟨⟨_, update_self .., rfl⟩, fun handle => iff_of_false not_mem_nil fun hand => ?_,
      nodup_nil, forall_mem_nil _,
      forall_mem_nil _, rfl⟩
    exact hand.1 (update_of_ne hand.2 ..)
  · exact ⟨rfl, htimer, fun hf => absurd hf Bool.false_ne_true, fun hf => absurd hf Bool.false_ne_true, cycles, hrate⟩

/-- A closure of one word. -/
def oneWord : TaskDefinition := ⟨8, 8, 0, "one word"⟩

/-- An address in the lower half. -/
theorem isCanonical_page : IsCanonical (UInt64.toNat 8192) := .inl (by decide)

theorem dvd_page : PageSize.Size4KiB.SIZE.toNat ∣ UInt64.toNat 8192 := ⟨2, rfl⟩

/-- A stack of one page. -/
def onePage : Stack := ⟨none, none, ⟨⟨⟨8192, isCanonical_page⟩, dvd_page⟩, 1⟩⟩

/-- A core with interrupts enabled. -/
def enabled : LaunchContext := ⟨0, ⟨true, false, false, false, false, false, false, 0⟩, 8⟩

/-- An interrupt on the stack of one page. -/
def onStack : TaskInterrupt := oneWord.launchInterruptFake enabled onePage

/-- A core whose timer is set up. -/
def calibrated : Timer := ⟨1000, none, false⟩

/-- The core task launches another task, is interrupted, and the other one terminates. -/
theorem sound_two_tasks : ∃ o ∈ Observed.init calibrated 0, (Safe TaskCall.step Observed.Sound
        [.start, .launch oneWord enabled (.ok onePage), .switch onStack, .terminate] o ↔
      Along TaskCall.step TaskCall.Proper
        [.start, .launch oneWord enabled (.ok onePage), .switch onStack, .terminate] o) := by
  have hrate : TaskSystem.timerCycles calibrated.mhz = .ok 100000000 := by decide
  exact ⟨_, rfl, sound_iff rfl hrate rfl (by decide)⟩

/-- The core task terminates while nobody waits; the task launched later never runs: the next context
switch panics. -/
theorem not_sound_last_task : ∃ o ∈ Observed.init calibrated 0, Along TaskCall.step TaskCall.Legal
        [.start, .terminate, .launch oneWord enabled (.ok onePage), .switch onStack] o ∧
      runFrom TaskCall.step [.start, .terminate, .launch oneWord enabled (.ok onePage), .switch onStack] o = none ∧
      ¬ Safe TaskCall.step Observed.Sound
        [.start, .terminate, .launch oneWord enabled (.ok onePage), .switch onStack] o := by
  refine ⟨_, rfl, by decide, rfl, fun hsafe => ?_⟩
  obtain ⟨o, ho, -⟩ := hsafe.runFrom
  exact absurd ho (Option.not_mem_none o)
end WasabiOS
