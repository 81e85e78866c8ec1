import WasabiOS.Kernel.Nvme.Command
import WasabiOS.Machinery.KeyedList
import WasabiOS.Machinery.Ring
import WasabiOS.Shared.ModGroup

/-!
# Kernel/Nvme/Queue — a command queue and the controller at its other end

A queue is two rings in memory that both sides see: commands go through the submission ring, completion
entries come back through the other.  The host tells the controller how far it has written and read by two
doorbells; the controller tells the host in the completion entries, by the phase bit and by the head of
the submission ring.

The controller is at work all the time: before each access to what both sides see (`tick`) it makes some
attempts; one that would break the rules of the protocol does nothing (`Device.act`).  What it attempts
when, and what else it keeps to, is the `Controller`.

`History` is ghost state: no code reads it.
-/

open Machinery Prog
namespace WasabiOS
namespace Nvme

/-- The errors of a queue. -/
inductive NVMEControllerError where
  | queueFull
  | invalidQueueSize (size : ℕ)
  | ioQueueLimitReached (count maxCount : ℕ)
  deriving DecidableEq, Repr

/-- Why a completion entry could not be stored. -/
inductive PollCompletionError where
  | identifierStillInUse (ident : ℕ)
  deriving DecidableEq, Repr

/-- The return type of `pollCompletions` -/
structure PollCompletionsResult where
  someNewEntries : Bool
  errorOnAnyEntry : Option PollCompletionError
  deriving DecidableEq, Repr

/-- A data structure giving access to an NVME command queue. -/
structure CommandQueue where
  id : ℕ
  submissionQueueSize : ℕ
  /-- The last submission entry index we notified the controller about. -/
  submissionQueueTail : ℕ
  /-- the last entry read by the controller -/
  submissionQueueHead : ℕ
  /-- the index of the next slot to write a command entry -/
  submissionQueueTailLocal : WrappingValue
  completionQueueSize : ℕ
  /-- the next entry to read from this completion queue -/
  completionQueueHead : WrappingValue
  /-- The expected phase of the next completion entry. -/
  completionExpectedPhase : Bool
  /-- Completion entries read from the controller -/
  completions : List CommonCompletionEntry
  /-- A unique id used to identify a command -/
  nextCommandIdentifier : ℕ
  deriving DecidableEq, Repr

/-- The size of all submission command entries -/
def SUBMISSION_COMMAND_ENTRY_SIZE : ℕ := 64

/-- The size of all completion command entries -/
def COMPLETION_COMMAND_ENTRY_SIZE : ℕ := 16

/-- `Size4KiB::SIZE` -/
def PAGE_SIZE : ℕ := 4096

namespace CommandQueue

/-- Allocates a new command queue. -/
def allocate (id submissionQueueSize completionQueueSize : ℕ) : Except NVMEControllerError CommandQueue :=
  if submissionQueueSize < 2 then .error (.invalidQueueSize submissionQueueSize)
  else if completionQueueSize < 2 then .error (.invalidQueueSize completionQueueSize)
  else if PAGE_SIZE < submissionQueueSize * SUBMISSION_COMMAND_ENTRY_SIZE then
    .error (.invalidQueueSize submissionQueueSize)
  else if PAGE_SIZE < completionQueueSize * COMPLETION_COMMAND_ENTRY_SIZE then
    .error (.invalidQueueSize completionQueueSize)
  else .ok {
    id := id
    submissionQueueSize := submissionQueueSize
    submissionQueueTail := 0
    submissionQueueHead := 0
    submissionQueueTailLocal := .zero submissionQueueSize
    completionQueueSize := completionQueueSize
    completionQueueHead := .zero completionQueueSize
    completionExpectedPhase := true
    completions := []
    nextCommandIdentifier := 0 }

def setSubmissionHead (head : ℕ) (q : CommandQueue) : CommandQueue := { q with submissionQueueHead := head }

def setSubmissionTail (tail : ℕ) (q : CommandQueue) : CommandQueue := { q with submissionQueueTail := tail }

def setTailLocal (tail : WrappingValue) (q : CommandQueue) : CommandQueue := { q with submissionQueueTailLocal := tail }

/-- The next entry is at `head`, and of the other phase if that is the first slot. -/
def setCompletionHead (head : WrappingValue) (q : CommandQueue) : CommandQueue := { q with
    completionQueueHead := head
    completionExpectedPhase := if head.value = 0 then !q.completionExpectedPhase else q.completionExpectedPhase }

def setCompletions (completions : List CommonCompletionEntry) (q : CommandQueue) : CommandQueue :=
  { q with completions := completions }

/-- `next_command_identifier.wrapping_add(1)` -/
def bumpIdentifier (q : CommandQueue) : CommandQueue :=
  { q with nextCommandIdentifier := (q.nextCommandIdentifier + 1) % 2 ^ 16 }

/-- returns `true` as long as there are submission in the queue that the controller has not been notified
about -/
def hasSubmissionsPendingFlush (q : CommandQueue) : Bool := q.submissionQueueTail ≠ q.submissionQueueTailLocal.value

/-- returns `true` if this queue is full for submissions -/
def isFullForSubmission (q : CommandQueue) : Checked Bool := do
  let next ← q.submissionQueueTailLocal.add 1
  return q.submissionQueueHead = next.value
end CommandQueue

/-! ## The controller -/

/-- What both sides see, and the controller. -/
structure Device where
  submissionQueueIdent : ℕ
  submissionQueueSize : ℕ
  completionQueueSize : ℕ
  submissionRing : ℕ → CommonCommand
  completionRing : ℕ → CommonCompletionEntry
  submissionTailDoorbell : ℕ
  completionHeadDoorbell : ℕ
  /-- the commands it has consumed -/
  fetched : List CommonCommand
  /-- the completion entries it has posted -/
  posted : List CommonCompletionEntry
  /-- how many commands it has said to have consumed -/
  reported : ℕ

/-- What a controller attempts. -/
inductive Action where
  /-- consume the next command -/
  | fetch
  /-- post a completion entry and report that `head` commands are consumed -/
  | post (head : ℕ) (entry : CommonCompletionEntry)

/-- What else a controller keeps to when it posts a completion entry with a head. -/
abbrev Rules := Device → ℕ → CommonCompletionEntry → Bool

/-- A controller: what it keeps to and what it attempts when. -/
structure Controller where
  rules : Rules
  attempts : ℕ → List Action

namespace Device

/-- The slots the controller has been told about and has not consumed. -/
def outstanding (d : Device) : List ℕ :=
  (List.range ((d.submissionTailDoorbell + d.submissionQueueSize - d.fetched.length % d.submissionQueueSize) %
    d.submissionQueueSize)).map fun i => (d.fetched.length + i) % d.submissionQueueSize

/-- The entry as the controller writes it: for this queue, with the phase of the lap and the head it
reports. -/
def stamp (head : ℕ) (e : CommonCompletionEntry) (d : Device) : CommonCompletionEntry where
  submissionQueueHead := head % d.submissionQueueSize
  submissionQueueIdent := d.submissionQueueIdent
  commandIdent := e.commandIdent
  statusAndPhase := ⟨Ring.lap d.completionQueueSize d.posted.length, e.statusAndPhase.statusCode,
      e.statusAndPhase.statusCodeType⟩
  tag := e.tag

/-- Consume the next command. -/
def fetch (d : Device) : Device :=
  { d with fetched := d.fetched ++ [d.submissionRing (d.fetched.length % d.submissionQueueSize)] }

/-- Post a completion entry. -/
def post (head : ℕ) (e : CommonCompletionEntry) (d : Device) : Device := { d with
    completionRing := Function.update d.completionRing (d.posted.length % d.completionQueueSize) (d.stamp head e)
    posted := d.posted ++ [d.stamp head e]
    reported := head }

/-- The rules of the protocol: commands are consumed in order up to the rung tail; entries are posted in
ring order, do not overrun the rung head, and report a head that does not go back and is not ahead of what
is consumed. -/
def Allowed (rules : Rules) : Action → Device → Prop
  | .fetch, d => d.fetched.length % d.submissionQueueSize ≠ d.submissionTailDoorbell
  | .post head e, d =>
    (d.posted.length + 1) % d.completionQueueSize ≠ d.completionHeadDoorbell ∧ d.reported ≤ head ∧
      head ≤ d.fetched.length ∧ rules d head e = true

instance (rules : Rules) : ∀ (a : Action) (d : Device), Decidable (Allowed rules a d)
  | .fetch, d => inferInstanceAs (Decidable (d.fetched.length % d.submissionQueueSize ≠ d.submissionTailDoorbell))
  | .post head e, d => inferInstanceAs (Decidable
    ((d.posted.length + 1) % d.completionQueueSize ≠ d.completionHeadDoorbell ∧ d.reported ≤ head ∧
      head ≤ d.fetched.length ∧ rules d head e = true))

/-- What an action does. -/
def perform : Action → Device → Device
  | .fetch => fetch
  | .post head e => post head e

/-- An attempt of the controller. -/
def act (rules : Rules) (d : Device) (a : Action) : Device := if Allowed rules a d then d.perform a else d

/-- The host writes a command. -/
def writeSlot (slot : ℕ) (c : CommonCommand) (d : Device) : Device :=
  { d with submissionRing := Function.update d.submissionRing slot c }

/-- The host rings the doorbell of the submission queue. -/
def ringSubmissionTail (tail : ℕ) (d : Device) : Device := { d with submissionTailDoorbell := tail }

/-- The host rings the doorbell of the completion queue. -/
def ringCompletionHead (head : ℕ) (d : Device) : Device := { d with completionHeadDoorbell := head }
end Device

/-- What has happened, as seen from outside. -/
structure History where
  /-- the number of submissions -/
  submitted : ℕ
  /-- the commands the controller has been told about -/
  flushed : List CommonCommand
  /-- the commands written and not flushed -/
  pending : List CommonCommand
  /-- the completion entries moved into the list -/
  moved : List CommonCompletionEntry
  /-- the completion entries taken out of it -/
  taken : List CommonCompletionEntry
  /-- a slot was overwritten that the controller had been told about and had not consumed -/
  overwritten : Bool

/-- A queue, what the controller has done and how often it had the time to, and what has happened. -/
structure State where
  queue : CommandQueue
  device : Device
  clock : ℕ
  history : History

namespace State

def onQueue (f : CommandQueue → CommandQueue) (s : State) : State := { s with queue := f s.queue }

/-- The controller makes some attempts. -/
def attempt (rules : Rules) (actions : List Action) (s : State) : State :=
  { s with device := actions.foldl (Device.act rules) s.device }

/-- The controller makes its next attempts. -/
def advance (ctrl : Controller) (s : State) : State :=
  { s with device := (ctrl.attempts s.clock).foldl (Device.act ctrl.rules) s.device, clock := s.clock + 1 }

/-- A command is written into a slot. -/
def write (slot : ℕ) (c : CommonCommand) (s : State) : State := { s with
    device := s.device.writeSlot slot c
    history := ⟨s.history.submitted + 1, s.history.flushed, s.history.pending ++ [c], s.history.moved,
      s.history.taken, s.history.overwritten || decide (slot ∈ s.device.outstanding)⟩ }

/-- The tail is told to the controller. -/
def ringTail (s : State) : State := { s with
    queue := s.queue.setSubmissionTail s.queue.submissionQueueTailLocal.value
    device := s.device.ringSubmissionTail s.queue.submissionQueueTailLocal.value
    history := ⟨s.history.submitted, s.history.flushed ++ s.history.pending, [], s.history.moved,
      s.history.taken, s.history.overwritten⟩ }

/-- The commands that are not flushed are forgotten. -/
def cancel (s : State) : State := { s with
    queue := s.queue.setTailLocal ⟨s.queue.submissionQueueTail, s.queue.submissionQueueSize⟩
    history := ⟨s.history.submitted, s.history.flushed, [], s.history.moved, s.history.taken, s.history.overwritten⟩ }

/-- An entry is moved into the list of completions, which is then `completions`, and the next one is at
`head`. -/
def move (head : WrappingValue) (completions : List CommonCompletionEntry) (e : CommonCompletionEntry)
    (s : State) : State :=
  { s with
    queue := (s.queue.setCompletionHead head).setCompletions completions
    history := ⟨s.history.submitted, s.history.flushed, s.history.pending, s.history.moved ++ [e],
      s.history.taken, s.history.overwritten⟩ }

/-- Entries are taken out of the list of completions, which is then `completions`. -/
def take (completions es : List CommonCompletionEntry) (s : State) : State := { s with
    queue := s.queue.setCompletions completions
    history := ⟨s.history.submitted, s.history.flushed, s.history.pending, s.history.moved,
      es ++ s.history.taken, s.history.overwritten⟩ }

/-- The read entries are told to the controller. -/
def ringHead (s : State) : State := { s with device := s.device.ringCompletionHead s.queue.completionQueueHead.value }
end State

/-! ## The operations -/

variable {ε : Type} (ctrl : Controller)

/-- The controller does something. -/
def tick : Prog State ε Unit := Prog.modify (State.advance ctrl)

/-- poll the controller for a single new completion entry -/
def pollSingleCompletion : Prog State PollCompletionError Bool := do
  tick ctrl
  let s ← Prog.get
  let slot := s.queue.completionQueueHead.value
  if (s.device.completionRing slot).phase ≠ s.queue.completionExpectedPhase then return false
  else
    -- the entry is read a second time
    tick ctrl
    let s ← Prog.get
    let completion := s.device.completionRing slot
    assert (completion.phase = s.queue.completionExpectedPhase)
    assert (s.queue.id = completion.submissionQueueIdent)
    Prog.modify (State.onQueue (CommandQueue.setSubmissionHead completion.submissionQueueHead))
    match Keyed.search CommonCompletionEntry.commandIdent completion.commandIdent s.queue.completions with
    | .ok _ => Prog.throw (.identifierStillInUse completion.commandIdent)
    | .error insertAt =>
      let head ← lift (s.queue.completionQueueHead.add 1)
      Prog.modify (State.move head (s.queue.completions.insertIdx insertAt completion) completion)
      return true

/-- The loop of `pollCompletions`. -/
def pollLoop : ℕ → Bool → Prog State ε PollCompletionsResult
  | 0, _ => crash .diverge
  | fuel + 1, anyFound => do
    match ← attempt (pollSingleCompletion ctrl) with
    | .ok true => pollLoop fuel true
    | .ok false => return ⟨anyFound, none⟩
    | .error reason => return ⟨anyFound, some reason⟩

/-- Poll the controller for new completion entries.  There is no more than a ring of them. -/
def pollCompletions : Prog State ε PollCompletionsResult := do
  let s ← Prog.get
  let result ← pollLoop ctrl s.queue.completionQueueSize false
  if result.someNewEntries then
    tick ctrl
    Prog.modify State.ringHead
    return result
  else return result

/-- `submit` returns early if there is no slot. -/
def ensureNotFull : Prog State NVMEControllerError Unit := do
  let s ← Prog.get
  if ← lift s.queue.isFullForSubmission then
    let result ← pollCompletions ctrl
    let s ← Prog.get
    if result.someNewEntries then
      if ← lift s.queue.isFullForSubmission then Prog.throw .queueFull
      else return ()
    else Prog.throw .queueFull
  else return ()

/-- Submits a new command to the queue. -/
def submit (command : CommonCommand) : Prog State NVMEControllerError ℕ := do
  ensureNotFull ctrl
  let s ← Prog.get
  let identifier := s.queue.nextCommandIdentifier
  let tail ← lift (s.queue.submissionQueueTailLocal.add 1)
  Prog.modify (State.onQueue fun q => q.bumpIdentifier.setTailLocal tail)
  tick ctrl
  Prog.modify (State.write s.queue.submissionQueueTailLocal.value (command.withIdent identifier s.history.submitted))
  return identifier

/-- Cancells all submissions since the last call to `flush`. -/
def cancelSubmissions : Prog State ε Unit := Prog.modify State.cancel

/-- Notify the controller about any pending submission command entries -/
def flush : Prog State ε Unit := do
  let s ← Prog.get
  if !s.queue.hasSubmissionsPendingFlush then return ()
  else
    tick ctrl
    Prog.modify State.ringTail

/-- Take the entry of a command out of the list of completions. -/
def takeCompletion (ident : ℕ) : Prog State ε (Option CommonCompletionEntry) := do
  let s ← Prog.get
  match Keyed.search CommonCompletionEntry.commandIdent ident s.queue.completions with
  | .ok index =>
    let entry ← expect s.queue.completions[index]?
    Prog.modify (State.take (s.queue.completions.eraseIdx index) [entry])
    return some entry
  | .error _ => return none

/-- The loop of `waitFor`. -/
def waitLoop (ident : ℕ) : ℕ → Prog State PollCompletionError (Option CommonCompletionEntry)
  | 0 => return none
  | fuel + 1 => do
    let result ← pollCompletions ctrl
    if result.someNewEntries then
      match ← takeCompletion ident with
      | some entry => return some entry
      | none => waitLoop ident fuel
    else
      match result.errorOnAnyEntry with
      | some err => Prog.throw err
      | none => waitLoop ident fuel

/-- Wait until a completion entry for a specific command exists; nothing is returned if there is none
after `fuel` rounds. -/
def waitFor (fuel ident : ℕ) : Prog State PollCompletionError (Option CommonCompletionEntry) := do
  match ← takeCompletion ident with
  | some entry => return some entry
  | none => waitLoop ctrl ident fuel

/-- Drain all polled completion entries. -/
def drainCompletions : Prog State ε (List CommonCompletionEntry) := do
  let s ← Prog.get
  Prog.modify (State.take [] s.queue.completions)
  return s.queue.completions
end Nvme
end WasabiOS
