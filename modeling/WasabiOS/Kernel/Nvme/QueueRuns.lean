import WasabiOS.Kernel.Nvme.Protocol

/-!
# Kernel/Nvme/QueueRuns — the queue over whole runs

Whatever the callers do and whatever a controller that keeps to the protocol does meanwhile, no command is
overwritten before it is consumed, and the completion entries arrive in the list of completions once each
and in order (`queueSound`).
-/

open Machinery Prog
namespace WasabiOS
namespace Nvme
open Option Run

/-- The calls. -/
inductive QueueCall where
  | submit (command : CommonCommand)
  | cancelSubmissions
  | flush
  | pollCompletions
  | waitFor (fuel ident : ℕ)
  | drainCompletions
  /-- the controller makes some attempts -/
  | controller (actions : List Action)

/-- The state after a call, if it did not fault. -/
def QueueCall.step (ctrl : Controller) : QueueCall → State → Option State
  | .submit command, s => (Nvme.submit ctrl command s).state?
  | .cancelSubmissions, s => ((Nvme.cancelSubmissions : Prog State Empty Unit) s).state?
  | .flush, s => ((Nvme.flush ctrl : Prog State Empty Unit) s).state?
  | .pollCompletions, s => ((Nvme.pollCompletions ctrl : Prog State Empty PollCompletionsResult) s).state?
  | .waitFor fuel ident, s => (Nvme.waitFor ctrl fuel ident s).state?
  | .drainCompletions, s => ((Nvme.drainCompletions : Prog State Empty (List CommonCompletionEntry)) s).state?
  | .controller actions, s => some (s.attempt ctrl.rules actions)

/-- A device with a new queue. -/
def Device.idle (q : CommandQueue) : Device where
  submissionQueueIdent := q.id
  submissionQueueSize := q.submissionQueueSize
  completionQueueSize := q.completionQueueSize
  submissionRing _ := default
  completionRing _ := default
  submissionTailDoorbell := 0
  completionHeadDoorbell := 0
  fetched := []
  posted := []
  reported := 0

/-- Nothing has happened. -/
def History.empty : History := ⟨0, [], [], [], [], false⟩

/-- A new queue. -/
def State.start (q : CommandQueue) : State := ⟨q, Device.idle q, 0, History.empty⟩

/-- **Nothing is overwritten and nothing is lost**: no slot was overwritten that the controller had been
told about and had not consumed; the completion entries that were moved are the first ones that were
posted, in order; they are in the list of completions or were taken out of it; and the list is sorted. -/
structure Sound (s : State) : Prop where
  intact : s.history.overwritten = false
  moved : s.history.moved <+: s.device.posted
  kept : (s.queue.completions ++ s.history.taken).Perm s.history.moved
  sorted : Keyed.Sorted CommonCompletionEntry.commandIdent s.queue.completions

/-- **Polling moves everything** that was posted before, or up to an entry whose identifier is that of one
still in the list; it then says so. -/
def QueueCall.MovesAll (ctrl : Controller) : QueueCall → State → Prop
  | .pollCompletions, s => ∀ r s', (Nvme.pollCompletions ctrl : Prog State Empty PollCompletionsResult) s = .ok r s' →
      (r.errorOnAnyEntry = none → s.device.posted.length ≤ s'.history.moved.length) ∧
      ∀ err, r.errorOnAnyEntry = some err → s'.Blocked err
  | _, _ => True

variable {ctrl : Controller} {s : State} {known : ℕ} {q : CommandQueue} {id submissionSize completionSize : ℕ}

theorem Inv.sound {freed : ℕ} (h : Inv s known freed) : Sound s :=
  ⟨h.submission.intact, h.completion.moved, h.completion.kept, h.completion.sorted⟩

section
variable (hq : CommandQueue.allocate id submissionSize completionSize = .ok q)
include hq

theorem allocate_eq_ok :
    (2 ≤ submissionSize ∧ submissionSize ≤ 64) ∧ (2 ≤ completionSize ∧ completionSize ≤ 256) ∧
      q = ⟨id, submissionSize, 0, 0, .zero submissionSize, completionSize, .zero completionSize, true, [], 0⟩ := by
  have hpage : PAGE_SIZE = 4096 := rfl
  have hsub : SUBMISSION_COMMAND_ENTRY_SIZE = 64 := rfl
  have hcomp : COMPLETION_COMMAND_ENTRY_SIZE = 16 := rfl
  unfold CommandQueue.allocate at hq
  rw [hpage, hsub, hcomp] at hq
  split_ifs at hq with h1 h2 h3 h4
  cases hq
  exact ⟨by omega, by omega, rfl⟩

theorem Inv.start : Inv (State.start q) 0 0 := by
  obtain ⟨⟨hsub, hsub'⟩, ⟨hcomp, hcomp'⟩, rfl⟩ := allocate_eq_ok hq
  have hzero : ∀ n, 0 = 0 % n := fun n => (Nat.zero_mod n).symm
  refine ⟨⟨rfl, hsub, hsub', hzero _, hzero _, congrArg (WrappingValue.mk · submissionSize) (hzero _), hzero _,
    ?_, le_rfl, le_rfl, List.prefix_rfl, nofun, rfl⟩,
    ⟨rfl, rfl, hcomp, hcomp', congrArg (WrappingValue.mk · completionSize) (hzero _), hzero _, le_rfl,
    List.prefix_rfl, ?_, ?_, nofun, fun j _ _ => rfl, ?_,
    List.Pairwise.nil, List.Perm.refl _⟩, fun _ => 0, ?_, fun _ _ _ _ => le_rfl, fun _ _ => le_rfl, .inl rfl,
    fun _ _ _ => le_rfl, fun _ _ => le_rfl⟩
  · show 0 < 0 + submissionSize
    omega
  · show 0 < 0 + completionSize
    omega
  · exact (Ring.lap_of_lt (by show 0 < completionSize; omega)).symm
  · exact nofun
  · exact nofun
end

/-- **Every call keeps the invariant.** -/
theorem Inv.step (ctrl : Controller) (h : Inv s known s.history.moved.length) (c : QueueCall) :
    ∃ s' ∈ c.step ctrl s, Resting s' := by
  cases c with
  | submit command =>
    refine exists_state (wp_mono (h.submit_wp command) ?_ ?_)
    · exact fun _ _ hr => hr.2.2
    · exact fun _ _ hr => hr.2.1
  | cancelSubmissions => exact ⟨s.cancel, rfl, known, h.cancel⟩
  | flush =>
    refine exists_state (wp_mono h.flush_wp ?_ ?_)
    · exact fun _ _ hr => ⟨known, hr.2⟩
    · exact fun _ _ => False.elim
  | pollCompletions =>
    refine exists_state (wp_mono h.pollCompletions_wp ?_ ?_)
    · exact fun _ _ hr => hr.2.1
    · exact fun _ _ => False.elim
  | waitFor fuel ident =>
    refine exists_state (wp_mono (h.waitFor_wp fuel ident) ?_ ?_)
    · exact fun _ _ hr => hr.2.1
    · exact fun _ _ hr => hr.2.1
  | drainCompletions => exact ⟨s.take [] s.queue.completions, rfl, known, h.take List.Pairwise.nil (List.Perm.refl _)⟩
  | controller actions => exact ⟨s.attempt ctrl.rules actions, rfl, known, h.attempt actions⟩

theorem Inv.movesAll (h : Inv s known s.history.moved.length) (c : QueueCall) : c.MovesAll ctrl s := by
  cases c with
  | pollCompletions =>
    intro r s' hrun
    obtain ⟨-, -, -, hall⟩ := (wp_of_ok hrun).1 h.pollCompletions_wp
    exact hall
  | _ => trivial

/-- **The queue protocol is safe**, over every run of calls and with every controller that keeps to the
protocol. -/
theorem queueSound (hq : CommandQueue.allocate id submissionSize completionSize = .ok q) (ctrl : Controller)
    (calls : List QueueCall) :
    Safe (QueueCall.step ctrl) Sound calls (State.start q) ∧
      Along (QueueCall.step ctrl) (QueueCall.MovesAll ctrl) calls (State.start q) := by
  have hstart : Resting (State.start q) := ⟨0, Inv.start hq⟩
  have hfree : Along (QueueCall.step ctrl) (fun _ _ => True) calls (State.start q) := along_of_forall fun _ _ => trivial
  constructor
  · refine (safe_of_along (I := Resting) ?_ hstart hfree).mono ?_
    · rintro c s ⟨known, h⟩ -
      exact h.step ctrl c
    · rintro s ⟨known, h⟩
      exact h.sound
  · refine along_of_invariant (I := Resting) ?_ hstart hfree
    rintro c s ⟨known, h⟩ -
    refine ⟨h.movesAll c, fun s' hs' => ?_⟩
    obtain ⟨s'', hs'', hinv⟩ := h.step ctrl c
    exact mem_unique hs'' hs' ▸ hinv

/-- Two slots each way. -/
def smallQueue : CommandQueue := ⟨1, 2, 0, 0, .zero 2, 2, .zero 2, true, [], 0⟩

theorem smallQueue_allocate : CommandQueue.allocate 1 2 2 = .ok smallQueue := rfl

/-- One command goes through. -/
def oneCommand : List QueueCall :=
  [.submit default, .flush, .controller [.fetch, .post 1 default], .pollCompletions, .waitFor 1 0]

/-- A controller without further rules that attempts nothing by itself. -/
def idleController : Controller := ⟨fun _ _ _ => true, fun _ => []⟩

theorem queueSound_smallQueue : Safe (QueueCall.step idleController) Sound oneCommand (State.start smallQueue) ∧
      Along (QueueCall.step idleController) (QueueCall.MovesAll idleController) oneCommand (State.start smallQueue) :=
  queueSound smallQueue_allocate idleController oneCommand
end Nvme
end WasabiOS
