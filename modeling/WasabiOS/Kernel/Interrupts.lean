import WasabiOS.Kernel.TaskSystem
import WasabiOS.Machinery.Run

/-!
# Kernel/Interrupts — the interrupt handler table and the timer that changes it

The table is meant as a partial map from vectors to handlers (`TableCall.onMap`); `unregister` does not clear the
entry, and the timer forgets its vector before it unregisters it (`interruptTable_iff`).  A one-shot timer puts a
handler of its own in the entry until it fires; `stop` does not take it out again (`oneShotTimer_iff`).

The registers of the APIC are written and not read: the divider and duration of a mode are left out.
-/

open Machinery Prog
open Function (update)
namespace WasabiOS
open Option Run

/-! ## The table -/

/-- The number of a vector -/
def InterruptVector.toU8 : InterruptVector → ℕ
  | contextSwitch => 32
  | spurious => 63
  | nop => 254
  | test => 255

/-- The first `32` vectors are for exceptions that are handled in a special way -/
def MAX_INTERRUPT_HANDLER_COUNT : ℕ := 256 - 32

/-- The index of a vector's handler: `interrupt_vector - 32` -/
def InterruptVector.index (v : InterruptVector) : Fin MAX_INTERRUPT_HANDLER_COUNT :=
  ⟨v.toU8 - 32, by cases v <;> decide⟩

theorem InterruptVector.index_injective : Function.Injective index := by
  intro v w h
  cases v <;> cases w <;> first | rfl | cases h

inductive InterruptRegistrationError where
  | interruptVectorInUse (vector : InterruptVector)
  | interruptVectorNotRegistered (vector : InterruptVector)
  | noRegisteredVector
  deriving DecidableEq, Repr

/-- All interrupt handlers or none. -/
abbrev Handlers (F : Type) := Fin MAX_INTERRUPT_HANDLER_COUNT → Option F

variable {F H ε : Type}

/-- asserts that the `vector` is a valid interrupt handler. -/
def checkInterruptVector (vector : InterruptVector) : Prog (Handlers F) ε Unit := assert (32 ≤ vector.toU8)

@[simp] theorem checkInterruptVector_eq (vector : InterruptVector) :
    (checkInterruptVector vector : Prog (Handlers F) ε Unit) = pure () := by cases vector <;> rfl

/-- registers a new `handler` for the interrupt `vector`. -/
def registerInterruptHandler (vector : InterruptVector) (handler : F) :
    Prog (Handlers F) InterruptRegistrationError Unit := do
  checkInterruptVector vector
  let handlers ← Prog.get
  if (handlers vector.index).isSome then Prog.throw (.interruptVectorInUse vector)
  else Prog.put (update handlers vector.index (some handler))

/-- registers a new `handler` for the interrupt `vector`, and returns the old one. -/
def changeInterruptHandler (vector : InterruptVector) (handler : F) :
    Prog (Handlers F) InterruptRegistrationError (Option F) := do
  checkInterruptVector vector
  let handlers ← Prog.get
  Prog.put (update handlers vector.index (some handler))
  return handlers vector.index

/-- unregisteres the previously registered handler for `vector`. -/
def unregisterInterruptHandler (vector : InterruptVector) : Prog (Handlers F) InterruptRegistrationError F := do
  checkInterruptVector vector
  let handlers ← Prog.get
  match handlers vector.index with
  | some handler => return handler
  | none => Prog.throw (.interruptVectorNotRegistered vector)

/-- returns the registered handler for `vector` -/
def getInterruptHandler (vector : InterruptVector) : Prog (Handlers F) ε (Option F) := do
  checkInterruptVector vector
  let handlers ← Prog.get
  return handlers vector.index

/-- A call on the table; it answers with the handler that was there, if it has one to answer with. -/
inductive TableCall (F : Type) where
  | register (vector : InterruptVector) (handler : F)
  | change (vector : InterruptVector) (handler : F)
  | unregister (vector : InterruptVector)

namespace TableCall

def run : TableCall F → Prog (Handlers F) InterruptRegistrationError (Option F)
  | register vector handler => (fun _ => none) <$> registerInterruptHandler vector handler
  | change vector handler => changeInterruptHandler vector handler
  | unregister vector => some <$> unregisterInterruptHandler vector

/-- **What the calls are for**: a partial map from vector to handler. -/
def onMap : TableCall F → Prog (InterruptVector → Option F) InterruptRegistrationError (Option F)
  | register vector handler => fun map =>
    if map vector = none then .ok none (update map vector (some handler))
    else .err (.interruptVectorInUse vector) map
  | change vector handler => fun map => .ok (map vector) (update map vector (some handler))
  | unregister vector => fun map =>
    if map vector = none then .err (.interruptVectorNotRegistered vector) map
    else .ok (map vector) (update map vector none)

/-- The state after a call. -/
def step (call : TableCall F) (handlers : Handlers F) : Option (Handlers F) := (call.run handlers).state?

/-- The table as a map. -/
def view (handlers : Handlers F) : InterruptVector → Option F := handlers ∘ InterruptVector.index

/-- The call answers as on the map, and does to the table what it does to the map. -/
def Behaves (call : TableCall F) (handlers : Handlers F) : Prop :=
  call.run.wp (fun reply handlers' => call.onMap (view handlers) = .ok reply (view handlers'))
    (fun error handlers' => call.onMap (view handlers) = .err error (view handlers')) handlers

theorem view_update (handlers : Handlers F) (vector : InterruptVector) (handler : Option F) :
    view (update handlers vector.index handler) = update (view handlers) vector handler :=
  Function.update_comp_eq_of_injective _ InterruptVector.index_injective _ _

/-- A call behaves unless it unregisters a handler, which stays in the table. -/
theorem behaves_iff (call : TableCall F) (handlers : Handlers F) :
    Behaves call handlers ↔ ∀ vector, call = unregister vector → handlers vector.index = none := by
  cases call with
  | register vector handler =>
    refine iff_of_true ?_ (by simp)
    cases h : handlers vector.index with
    | none =>
      simp [Behaves, run, registerInterruptHandler, onMap, h, view_update, show view handlers vector = none from h]
    | some f => simp [Behaves, run, registerInterruptHandler, onMap, h, show view handlers vector = some f from h]
  | change vector handler =>
    refine iff_of_true ?_ (by simp)
    simp [Behaves, run, changeInterruptHandler, onMap, view_update, show view handlers vector = handlers vector.index from rfl]
  | unregister vector =>
    have hview : view handlers vector = handlers vector.index := rfl
    cases h : handlers vector.index with
    | none => simp [Behaves, run, unregisterInterruptHandler, onMap, h, hview]
    | some f =>
      -- the map has nothing there afterwards, the table still has the handler
      refine iff_of_false (fun hbehaves => ?_) (fun hnone => ?_)
      · simp [Behaves, run, unregisterInterruptHandler, onMap, h, hview] at hbehaves
      · exact some_ne_none f (h ▸ hnone vector rfl)
end TableCall

/-! ## The timer -/

/-- The mode of the timer -/
inductive TimerMode where
  | stopped
  | oneShot
  | periodic
  | tscDeadline
  deriving DecidableEq, Repr

/-- the current state of the timer -/
structure TimerData (F : Type) extends Timer where
  mode : TimerMode
  oneShotInnerHandler : Option F

/-- The timer of a core, and the handlers of its interrupts. -/
structure TimerCore (F : Type) where
  timer : TimerData F
  handlers : Handlers F

/-- timer related errors, those of the table among them -/
inductive TimerFailure where
  | timer (error : TimerError)
  | interruptRegistration (error : InterruptRegistrationError)
  deriving DecidableEq, Repr

namespace TimerCore
variable {α : Type}

def onTimer (op : Prog Timer TimerError α) : Prog (TimerCore F) TimerFailure α :=
  mapErr .timer (zoom (fun s => s.timer.toTimer) (fun t s => { s with timer := { s.timer with toTimer := t } }) op)

def onHandlers (op : Prog (Handlers F) InterruptRegistrationError α) : Prog (TimerCore F) TimerFailure α :=
  mapErr .interruptRegistration (zoom handlers (fun t s => { s with handlers := t }) op)

/-- register an interrupt handler for the timer to call. -/
def registerInterruptHandler (vector : InterruptVector) (handler : F) :
    Prog (TimerCore F) TimerFailure (Option InterruptVector) := do
  let s ← Prog.get
  if s.timer.isRunning then Prog.throw (.timer .timerRunning)
  else
    onHandlers (WasabiOS.registerInterruptHandler vector handler)
    onTimer (Timer.enableInterruptHander vector)

/-- disables the currently enabled timer interrupt handler -/
def disableInterruptHandler : Prog (TimerCore F) TimerFailure (Option InterruptVector) := do
  let s ← Prog.get
  if s.timer.isRunning then Prog.throw (.timer .timerRunning)
  else
    Prog.put { s with timer.interruptVector := none }
    return s.timer.interruptVector

/-- unregister the current interrupt for the timer -/
def unregisterInterruptHandler : Prog (TimerCore F) TimerFailure (Option InterruptVector) := do
  let s ← Prog.get
  if s.timer.isRunning then Prog.throw (.timer .timerRunning)
  else
    let oldVector ← disableInterruptHandler
    let s ← Prog.get
    match s.timer.interruptVector with
    | none => Prog.throw (.interruptRegistration .noRegisteredVector)
    | some vector =>
      let _ ← onHandlers (WasabiOS.unregisterInterruptHandler vector)
      return oldVector

/-- Registering a handler for the timer and unregistering it again succeeds, and the table is as it was. -/
def Restores (vector : InterruptVector) (handler : F) (s : TimerCore F) : Prop :=
  ∃ old s', (do let _ ← registerInterruptHandler vector handler; unregisterInterruptHandler) s = .ok old s' ∧
    s'.handlers = s.handlers

/-- The timer has no vector any more when it looks for the one to unregister. -/
theorem unregisterInterruptHandler_ne_ok (s s' : TimerCore F) (old : Option InterruptVector) :
    unregisterInterruptHandler s ≠ .ok old s' := by
  cases h : s.timer.isRunning <;> simp [unregisterInterruptHandler, disableInterruptHandler, h]

theorem not_restores (vector : InterruptVector) (handler : F) (s : TimerCore F) : ¬ Restores vector handler s := by
  rintro ⟨old, s', hrun, -⟩
  obtain ⟨_, s1, -, hunregister⟩ := bind_ok_iff.1 hrun
  exact unregisterInterruptHandler_ne_ok s1 s' old hunregister
end TimerCore

open TableCall in
/-- **The table behaves as a map along a run exactly if nothing that is registered is unregistered**, and the timer's
own handler is never unregistered. -/
theorem interruptTable_iff (calls : List (TableCall F)) (handlers : Handlers F) : (Along step Behaves calls handlers ↔
      Along step (fun call handlers => ∀ vector, call = unregister vector → handlers vector.index = none)
        calls handlers) ∧
    ∀ (vector : InterruptVector) (handler : F) (s : TimerCore F), ¬ TimerCore.Restores vector handler s :=
  ⟨along_iff_of_invariant (I := fun _ => True) (fun call handlers _ => behaves_iff call handlers)
    (fun _ _ _ _ _ _ => trivial) trivial, TimerCore.not_restores⟩

/-- **A handler that is registered and unregistered stays**, also that of the timer. -/
theorem not_interruptTable : ¬ Along TableCall.step TableCall.Behaves
      [.register .test (), .unregister .test] (fun _ => none) ∧
    ¬ TimerCore.Restores .test () ⟨⟨⟨1000, none, false⟩, .stopped, none⟩, fun _ => none⟩ := by
  refine ⟨fun h => ?_, TimerCore.not_restores _ _ _⟩
  have hunregister := (TableCall.behaves_iff _ _).1 (h.2 _ rfl).1 .test rfl
  cases hunregister

/-! ## One-shot timers -/

/-- A handler: one of the kernel's own, or the one the timer puts before it. -/
inductive InterruptFn (H : Type) where
  | user (handler : H)
  | oneShotInterruptHandler

namespace TimerCore

/-- Stops the apic timer -/
def stop (s : TimerCore F) : TimerCore F := { s with timer := { s.timer with mode := .stopped, isRunning := false } }

/-- starts the timer -/
def start (mode : TimerMode) : Prog (TimerCore (InterruptFn H)) TimerFailure Unit := do
  let s ← Prog.get
  if s.timer.isRunning then Prog.throw (.timer .timerRunning)
  else if mode = .stopped then Prog.put s.stop
  else if mode = .tscDeadline then Prog.panic
  else match s.timer.interruptVector with
    | none => Prog.throw (.timer .missingInterruptVector)
    | some vector =>
      if mode = .oneShot then
        let inner ← onHandlers (changeInterruptHandler vector .oneShotInterruptHandler)
        Prog.modify fun s => { s with timer.oneShotInnerHandler := inner }
      Prog.modify fun s => { s with timer := { s.timer with mode := mode, isRunning := true } }

/-- Calls a handler: what was called of the kernel's own, and whether the handler returned `Ok`.  The one-shot handler
calls the one it stands for last; `depth` bounds how often it stands for itself. -/
def callHandler (returns : H → Bool) : ℕ → InterruptVector → InterruptFn H →
    Prog (TimerCore (InterruptFn H)) TimerFailure (List H × Bool)
  | 0, _, _ => crash .diverge
  | _ + 1, _, .user handler => return ([handler], returns handler)
  | depth + 1, vector, .oneShotInterruptHandler => do
    let s ← Prog.get
    assert (some vector = s.timer.interruptVector)
    Prog.put { s with timer := { s.timer with isRunning := false, oneShotInnerHandler := none } }
    match s.timer.oneShotInnerHandler with
    | some inner =>
      let _ ← onHandlers (changeInterruptHandler vector inner)
      callHandler returns depth vector inner
    | none =>
      let _ ← attempt (ε := TimerFailure) (onHandlers (WasabiOS.unregisterInterruptHandler vector))
      return ([], false)

/-- An interrupt of the timer.  The second time the one-shot handler is called it has nothing left to call. -/
def interruptHandler (returns : H → Bool) : Prog (TimerCore (InterruptFn H)) TimerFailure (List H × Bool) := do
  let s ← Prog.get
  let vector ← expect s.timer.interruptVector
  let handler ← onHandlers (getInterruptHandler vector)
  let handler ← expect handler
  callHandler returns 2 vector handler

/-- A timer that is stopped, with a handler registered for its vector. -/
def registered (vector : InterruptVector) (handler : H) (s : TimerCore (InterruptFn H)) : TimerCore (InterruptFn H) where
  timer := { s.timer with interruptVector := some vector, isRunning := false }
  handlers := update s.handlers vector.index (some (.user handler))
end TimerCore

/-- What happens to the timer.  What a handler does to it comes after the interrupt. -/
inductive TimerCall where
  | start (mode : TimerMode)
  | stop
  | interrupt

namespace TimerCall
open TimerCore
variable (returns : H → Bool)

/-- A call: what was called of the kernel's own handlers, and whether the handler returned `Ok`. -/
def run : TimerCall → Prog (TimerCore (InterruptFn H)) TimerFailure (List H × Bool)
  | start mode => do TimerCore.start mode; return ([], true)
  | stop => do Prog.modify TimerCore.stop; return ([], true)
  | interrupt => interruptHandler returns

/-- The state after a call; the kernel panics if a handler fails. -/
def step (call : TimerCall) (s : TimerCore (InterruptFn H)) : Option (TimerCore (InterruptFn H)) :=
  match run returns call s with
  | .ok (_, true) s' => some s'
  | .err _ s' => some s'
  | _ => none

/-- **What the one-shot handler is for**: a running timer calls the handler `h` once for each interrupt, a one-shot
timer runs until then, and the entry of a timer that does not run is `h`. -/
structure Wraps (vector : InterruptVector) (h : H) (call : TimerCall) (s : TimerCore (InterruptFn H)) : Prop where
  once : call = interrupt → s.timer.isRunning → (run returns call).wp (fun r _ => r.1 = [h]) (fun _ _ => False) s
  ends : call = interrupt → s.timer.isRunning → s.timer.mode = .oneShot →
    ∀ s' ∈ step returns call s, s'.timer.isRunning = false
  restored : ∀ s' ∈ step returns call s, s'.timer.isRunning = false → s'.handlers vector.index = some (.user h)

/-- A one-shot timer has not fired yet. -/
def Pending (s : TimerCore F) : Prop := s.timer.isRunning ∧ s.timer.mode = .oneShot

instance (s : TimerCore F) : Decidable (Pending s) := inferInstanceAs (Decidable (_ ∧ _))

/-- The entry of the timer's vector is the one-shot handler while it waits, and `h` otherwise. -/
structure Inv (vector : InterruptVector) (h : H) (s : TimerCore (InterruptFn H)) : Prop where
  vector_eq : s.timer.interruptVector = some vector
  entry : s.handlers vector.index = some (if Pending s then .oneShotInterruptHandler else .user h)
  inner : Pending s → s.timer.oneShotInnerHandler = some (.user h)

variable {returns} {vector : InterruptVector} {h : H} {s : TimerCore (InterruptFn H)} {call : TimerCall}
section
variable (hi : Inv vector h s)
include hi

theorem Inv.entry_of_stopped (hstopped : s.timer.isRunning = false) : s.handlers vector.index = some (.user h) := by
  rw [hi.entry, if_neg (by simp [Pending, hstopped])]

/-- An interrupt calls `h`, and puts it back if it was a one-shot timer's. -/
theorem Inv.run_interrupt : run returns .interrupt s = .ok ([h], returns h)
    (if Pending s then ⟨{ s.timer with isRunning := false, oneShotInnerHandler := none },
      update s.handlers vector.index (some (.user h))⟩ else s) := by
  have hentry := hi.entry
  have hvector := hi.vector_eq
  by_cases hpending : Pending s
  · rw [if_pos hpending] at hentry ⊢
    simp [run, interruptHandler, onHandlers, getInterruptHandler, callHandler, changeInterruptHandler, mapErr,
      zoom, hvector, hentry, hi.inner hpending]
  · rw [if_neg hpending] at hentry ⊢
    simp [run, interruptHandler, onHandlers, getInterruptHandler, callHandler, mapErr, zoom, hvector, hentry]

/-- **Every call keeps the handler**, but for a `stop` before the timer fires. -/
theorem Inv.step (hstop : ¬ (call = .stop ∧ Pending s)) {s' : TimerCore (InterruptFn H)}
    (hs : s' ∈ step returns call s) : Inv vector h s' := by
  cases call with
  | stop =>
    cases Option.some.inj hs
    have hentry := hi.entry
    rw [if_neg fun hpending => hstop ⟨rfl, hpending⟩] at hentry
    exact ⟨hi.vector_eq, by simpa [Pending, TimerCore.stop] using hentry, by simp [Pending, TimerCore.stop]⟩
  | interrupt =>
    rw [mem_def, TimerCall.step, hi.run_interrupt] at hs
    cases hreturns : returns h with
    | false => simp [hreturns] at hs
    | true =>
      simp only [hreturns, Option.some.injEq] at hs
      by_cases hpending : Pending s
      · rw [if_pos hpending] at hs
        subst hs
        exact ⟨hi.vector_eq, by simp [Pending], by simp [Pending]⟩
      · rw [if_neg hpending] at hs
        exact hs ▸ hi
  | start mode =>
    cases hrunning : s.timer.isRunning with
    | true =>
      -- refused
      have heq : s = s' := by simpa [TimerCall.step, run, TimerCore.start, hrunning] using hs
      exact heq ▸ hi
    | false =>
      have hentry := hi.entry_of_stopped hrunning
      cases mode with
      | tscDeadline => simp [TimerCall.step, run, TimerCore.start, hrunning] at hs
      | stopped =>
        have heq : s.stop = s' := by simpa [TimerCall.step, run, TimerCore.start, hrunning] using hs
        subst heq
        exact ⟨hi.vector_eq, by simpa [Pending, TimerCore.stop] using hentry, by simp [Pending, TimerCore.stop]⟩
      | periodic =>
        have heq : { s with timer := { s.timer with mode := .periodic, isRunning := true } } = s' := by
          simpa [TimerCall.step, run, TimerCore.start, hrunning, hi.vector_eq] using hs
        subst heq
        exact ⟨hi.vector_eq, by simpa [Pending] using hentry, by simp [Pending]⟩
      | oneShot =>
        have heq : (⟨{ s.timer with mode := .oneShot, isRunning := true, oneShotInnerHandler := some (.user h) },
            update s.handlers vector.index (some .oneShotInterruptHandler)⟩ : TimerCore (InterruptFn H)) = s' := by
          simpa [TimerCall.step, run, TimerCore.start, onHandlers, changeInterruptHandler, mapErr, zoom, hrunning,
            hi.vector_eq, hentry] using hs
        subst heq
        exact ⟨hi.vector_eq, by simp [Pending], fun _ => rfl⟩

theorem Inv.wraps (hstop : ¬ (call = .stop ∧ Pending s)) : Wraps returns vector h call s where
  once := by
    rintro rfl -
    exact wp_of_ok hi.run_interrupt |>.mpr rfl
  ends := by
    rintro rfl hrunning hmode s' hs
    rw [mem_def, TimerCall.step, hi.run_interrupt, if_pos ⟨hrunning, hmode⟩] at hs
    cases hreturns : returns h with
    | false => simp [hreturns] at hs
    | true =>
      simp only [hreturns, Option.some.injEq] at hs
      exact hs ▸ rfl
  restored s' hs := (hi.step hstop hs).entry_of_stopped

/-- A one-shot timer that is stopped leaves its own handler behind. -/
theorem Inv.not_wraps (hpending : Pending s) : ¬ Wraps returns vector h .stop s := by
  intro hwraps
  have hentry := hwraps.restored s.stop rfl rfl
  rw [TimerCore.stop, hi.entry, if_pos hpending] at hentry
  cases hentry
end
end TimerCall

open TimerCall in
/-- **A timer calls its handler, and has it back when it does not run, exactly if no one-shot timer is stopped before
it fires.** -/
theorem oneShotTimer_iff (returns : H → Bool) (vector : InterruptVector) (h : H) (s : TimerCore (InterruptFn H))
    (calls : List TimerCall) :
    Along (step returns) (Wraps returns vector h) calls (s.registered vector h) ↔
      Along (step returns) (fun call s => ¬ (call = .stop ∧ Pending s)) calls (s.registered vector h) := by
  have hstart : Inv vector h (s.registered vector h) :=
    ⟨rfl, by simp [Pending, TimerCore.registered], by simp [Pending, TimerCore.registered]⟩
  have hiff : ∀ call s, Inv vector h s → (Wraps returns vector h call s ↔ ¬ (call = .stop ∧ Pending s)) := by
    refine fun call s hi => ⟨?_, hi.wraps⟩
    rintro hwraps ⟨rfl, hpending⟩
    exact hi.not_wraps hpending hwraps
  exact along_iff_of_invariant hiff (fun call s hi hwraps s' hs => hi.step ((hiff call s hi).1 hwraps) hs) hstart

/-- **A one-shot timer is started and stopped**: its own handler stays in the table. -/
theorem not_oneShotTimer : ¬ Along (TimerCall.step fun _ => true) (TimerCall.Wraps (fun _ => true) .test ())
    [.start .oneShot, .stop] (.registered .test () ⟨⟨⟨1000, none, false⟩, .stopped, none⟩, fun _ => none⟩) := by
  intro h
  have hentry := ((h.2 _ rfl).1).restored _ rfl rfl
  cases hentry
end WasabiOS
