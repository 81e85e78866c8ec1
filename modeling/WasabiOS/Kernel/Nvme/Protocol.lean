import WasabiOS.Kernel.Nvme.Queue
import WasabiOS.Machinery.Run

/-!
# Kernel/Nvme/Protocol — the queue protocol over whole runs

The two sides see slots; the invariant counts what has gone through the rings without wrapping.  In the
submission ring the counts stand in the order

    head known to the host ≤ head reported ≤ consumed ≤ flushed ≤ written < head known to the host + size

and in the completion ring

    told to the controller ≤ moved ≤ posted < told to the controller + size.

Each side only ever moves its own count, and only as far as this order allows (`Inv.act`, `Inv.move`,
`Inv.write`).
-/

open Machinery Prog
namespace WasabiOS
namespace Nvme
open CommonCompletionEntry List Option Nat Function
variable {q : CommandQueue} {d : Device} {past : History} {known freed : ℕ} {e : CommonCompletionEntry} {s s' : State}
  {d d' : Device} {P : Device → Prop} {head : ℕ → ℕ} {rules : Rules} {ctrl : Controller}

/-- **The submission ring**, if the host knows of `known` consumed commands. -/
structure Submission (q : CommandQueue) (d : Device) (past : History) (known : ℕ) : Prop where
  size_eq : d.submissionQueueSize = q.submissionQueueSize
  two_le : 2 ≤ q.submissionQueueSize
  le_64 : q.submissionQueueSize ≤ 64
  tail : q.submissionQueueTail = past.flushed.length % q.submissionQueueSize
  doorbell : d.submissionTailDoorbell = past.flushed.length % q.submissionQueueSize
  tailLocal : q.submissionQueueTailLocal =
    ⟨(past.flushed ++ past.pending).length % q.submissionQueueSize, q.submissionQueueSize⟩
  head : q.submissionQueueHead = known % q.submissionQueueSize
  room : (past.flushed ++ past.pending).length < known + q.submissionQueueSize
  known_le : known ≤ d.reported
  reported_le : d.reported ≤ d.fetched.length
  fetched : d.fetched <+: past.flushed
  ring : Ring.Holds q.submissionQueueSize d.submissionRing (past.flushed ++ past.pending) d.fetched.length
  intact : past.overwritten = false

/-- **The completion ring**, if the controller knows of `freed` read entries. -/
structure Completion (q : CommandQueue) (d : Device) (past : History) (freed : ℕ) : Prop where
  size_eq : d.completionQueueSize = q.completionQueueSize
  ident_eq : d.submissionQueueIdent = q.id
  two_le : 2 ≤ q.completionQueueSize
  le_256 : q.completionQueueSize ≤ 256
  head : q.completionQueueHead = ⟨past.moved.length % q.completionQueueSize, q.completionQueueSize⟩
  doorbell : d.completionHeadDoorbell = freed % q.completionQueueSize
  freed_le : freed ≤ past.moved.length
  moved : past.moved <+: d.posted
  room : d.posted.length < freed + q.completionQueueSize
  phase : q.completionExpectedPhase = Ring.lap q.completionQueueSize past.moved.length
  ring : Ring.Holds q.completionQueueSize d.completionRing d.posted (d.posted.length - q.completionQueueSize)
  blank : ∀ j, d.posted.length ≤ j → j < q.completionQueueSize → (d.completionRing j).phase = false
  stamped : ∀ i e, d.posted[i]? = some e → e.phase = Ring.lap q.completionQueueSize i ∧ e.submissionQueueIdent = q.id
  sorted : Keyed.Sorted commandIdent q.completions
  kept : (q.completions ++ past.taken).Perm past.moved

/-- **The reported heads** do not go back: entry `i` reports that `head i` commands are consumed. -/
structure Heads (q : CommandQueue) (d : Device) (past : History) (known : ℕ) (head : ℕ → ℕ) : Prop where
  entry : ∀ i e, d.posted[i]? = some e → e.submissionQueueHead = head i % q.submissionQueueSize
  mono : ∀ i j, i ≤ j → j < d.posted.length → head i ≤ head j
  le_reported : ∀ i, i < d.posted.length → head i ≤ d.reported
  reported : d.reported = 0 ∨ ∃ i < d.posted.length, d.reported ≤ head i
  known_le : ∀ i, past.moved.length ≤ i → i < d.posted.length → known ≤ head i
  le_known : ∀ i < past.moved.length, head i ≤ known

/-- What `Submission` is about. -/
def submissionView (q : CommandQueue) (d : Device) (past : History) :=
  ((q.submissionQueueSize, q.submissionQueueTail, q.submissionQueueHead, q.submissionQueueTailLocal),
    (d.submissionQueueSize, d.submissionTailDoorbell, d.submissionRing, d.fetched, d.reported),
    past.flushed, past.pending, past.overwritten)

/-- What `Completion` is about. -/
def completionView (q : CommandQueue) (d : Device) (past : History) :=
  ((q.id, q.completionQueueSize, q.completionQueueHead, q.completionExpectedPhase, q.completions),
    (d.submissionQueueIdent, d.completionQueueSize, d.completionHeadDoorbell, d.completionRing, d.posted),
    past.moved, past.taken)

/-- What `Heads` is about. -/
def headsView (q : CommandQueue) (d : Device) (past : History) :=
  (q.submissionQueueSize, (d.posted, d.reported), past.moved)

variable {q' : CommandQueue} {past' : History}

theorem Submission.frame (h : Submission q d past known)
    (heq : submissionView q' d' past' = submissionView q d past) : Submission q' d' past' known := by
  cases q; cases q'; cases d; cases d'; cases past; cases past'
  cases heq
  exact { h with }

theorem Completion.frame (h : Completion q d past freed)
    (heq : completionView q' d' past' = completionView q d past) : Completion q' d' past' freed := by
  cases q; cases q'; cases d; cases d'; cases past; cases past'
  cases heq
  exact { h with }

theorem Heads.frame (h : Heads q d past known head)
    (heq : headsView q' d' past' = headsView q d past) : Heads q' d' past' known head := by
  cases q; cases q'; cases d; cases d'; cases past; cases past'
  cases heq
  exact { h with }

/-- **The invariant of a queue.** -/
structure Inv (s : State) (known freed : ℕ) : Prop where
  submission : Submission s.queue s.device s.history known
  completion : Completion s.queue s.device s.history freed
  heads : ∃ head, Heads s.queue s.device s.history known head

/-- The invariant between calls: whatever was moved is free for the controller again. -/
abbrev Resting (s : State) : Prop := ∃ known, Inv s known s.history.moved.length

/-! ## The controller -/

/-- What changes the device: an action of the controller, or a write of the host. -/
inductive Device.Step (rules : Rules) : Device → Device → Prop where
  | act {d : Device} {a : Action} (ha : Device.Allowed rules a d) : Device.Step rules d (d.perform a)
  | writeSlot (d : Device) (slot : ℕ) (c : CommonCommand) : Device.Step rules d (d.writeSlot slot c)
  | ringSubmissionTail (d : Device) (tail : ℕ) : Device.Step rules d (d.ringSubmissionTail tail)
  | ringCompletionHead (d : Device) (head : ℕ) : Device.Step rules d (d.ringCompletionHead head)

/-- Some changes, one after another. -/
abbrev Device.Leads (rules : Rules) : Device → Device → Prop := Relation.ReflTransGen (Device.Step rules)

/-- What each change preserves, all of them together preserve. -/
theorem Device.Leads.preserves (h : Device.Leads rules d d')
    (hstep : ∀ d d', Device.Step rules d d' → P d → P d') (hd : P d) : P d' := by
  induction h with
  | refl => exact hd
  | tail _ hlast ih => exact hstep _ _ hlast ih

/-- The controller only adds to what it has posted. -/
theorem Device.Leads.posted (h : Device.Leads rules d d') : d.posted <+: d'.posted := by
  refine h.preserves (P := fun d' => d.posted <+: d'.posted) ?_ prefix_rfl
  rintro d1 d2 (⟨ha⟩ | _ | _ | _) hd
  · rename_i a
    cases a with
    | fetch => exact hd
    | post head e => exact hd.trans (prefix_append _ _)
  · exact hd
  · exact hd
  · exact hd

section Controller
variable {head : ℕ} {s : State}

/-- Consuming a command. -/
theorem Submission.fetch (h : Submission q d past known)
    (hallowed : d.fetched.length % d.submissionQueueSize ≠ d.submissionTailDoorbell) :
    Submission q d.fetch past known := by
  have hlt : d.fetched.length < past.flushed.length := by
    refine lt_of_le_of_ne h.fetched.length_le fun heq => hallowed ?_
    rw [h.size_eq, h.doorbell, heq]
  have hread : past.flushed[d.fetched.length]? =
      some (d.submissionRing (d.fetched.length % d.submissionQueueSize)) := by
    rw [h.size_eq]
    exact h.ring.of_append d.fetched.length le_rfl hlt
  refine { h with reported_le := ?_, fetched := ?_, ring := ?_ }
  · show d.reported ≤ (d.fetched ++ [_]).length
    rw [length_append]
    exact h.reported_le.trans (le_add_right _ _)
  · obtain ⟨rest, hrest⟩ := h.fetched
    cases rest with
    | nil =>
      rw [append_nil] at hrest
      exact absurd (congrArg List.length hrest) hlt.ne
    | cons c rest =>
      refine ⟨rest, ?_⟩
      rw [← hrest, getElem?_append_right le_rfl, Nat.sub_self] at hread
      show d.fetched ++ [d.submissionRing _] ++ rest = past.flushed
      rw [← Option.some.inj hread, append_assoc]
      exact hrest
  · refine h.ring.mono ?_
    show d.fetched.length ≤ (d.fetched ++ [_]).length
    rw [length_append]
    exact le_add_right _ _

/-- Posting a completion entry does not touch the submission ring. -/
theorem Submission.post (h : Submission q d past known) (hreported : d.reported ≤ head)
    (hhead : head ≤ d.fetched.length) : Submission q (d.post head e) past known :=
  { h with known_le := h.known_le.trans hreported, reported_le := hhead }

/-- Posting a completion entry. -/
theorem Completion.post (h : Completion q d past freed)
    (hallowed : (d.posted.length + 1) % d.completionQueueSize ≠ d.completionHeadDoorbell) :
    Completion q (d.post head e) past freed := by
  have htwo := h.two_le
  have hroom : d.posted.length + 1 < freed + q.completionQueueSize := by
    refine lt_of_le_of_ne h.room fun heq => hallowed ?_
    rw [h.size_eq, h.doorbell, heq, add_mod_right]
  have hlength : (d.post head e).posted.length = d.posted.length + 1 := length_append
  refine { h with
    moved := h.moved.trans (prefix_append _ _), room := hlength ▸ hroom, ring := ?_, blank := ?_, stamped := ?_ }
  · rw [hlength]
    have hring := (h.ring.mono (b := d.posted.length + 1 - q.completionQueueSize) (by omega)).write
      (x := d.stamp head e) (by omega)
    rw [← h.size_eq] at hring ⊢
    exact hring
  · intro j hj hlt
    rw [hlength] at hj
    have hslot : j ≠ d.posted.length % d.completionQueueSize := by
      rw [h.size_eq, mod_eq_of_lt (by omega)]
      omega
    show (Function.update d.completionRing _ _ j).phase = false
    rw [update_of_ne hslot]
    exact h.blank j (by omega) hlt
  · intro i e' hi
    rcases Ring.getElem?_concat hi with ⟨-, hi⟩ | ⟨rfl, rfl⟩
    · exact h.stamped i e' hi
    · exact ⟨congrArg (Ring.lap · d.posted.length) h.size_eq, h.ident_eq⟩

theorem Heads.post {heads : ℕ → ℕ} (h : Heads q d past known heads)
    (hsize : d.submissionQueueSize = q.submissionQueueSize) (hmoved : past.moved <+: d.posted)
    (hknown : known ≤ d.reported) (hreported : d.reported ≤ head) :
    Heads q (d.post head e) past known (Function.update heads d.posted.length head) := by
  have hlast : ∀ i, i < (d.post head e).posted.length → i < d.posted.length ∨ i = d.posted.length := by
    intro i hi
    have hlength : (d.post head e).posted.length = d.posted.length + 1 := length_append
    omega
  have hold : ∀ i, i < d.posted.length → Function.update heads d.posted.length head i = heads i :=
    fun i hi => update_of_ne hi.ne ..
  have hnew : Function.update heads d.posted.length head d.posted.length = head := update_self ..
  have hle : ∀ i, i < (d.post head e).posted.length → Function.update heads d.posted.length head i ≤ head := by
    intro i hi
    rcases hlast i hi with hlt | rfl
    · rw [hold i hlt]
      exact (h.le_reported i hlt).trans hreported
    · exact hnew.le
  refine ⟨fun i e' hi => ?_, fun i j hij hj => ?_, hle, .inr ⟨d.posted.length, ?_, hnew.ge⟩,
    fun i hmoved hi => ?_, fun i hi => ?_⟩
  · rcases Ring.getElem?_concat hi with ⟨hlt, hi⟩ | ⟨rfl, rfl⟩
    · rw [hold i hlt]
      exact h.entry i e' hi
    · rw [hnew, ← hsize]
      rfl
  · rcases hlast j hj with hlt | rfl
    · rw [hold i (hij.trans_lt hlt), hold j hlt]
      exact h.mono i j hij hlt
    · rw [hnew]
      exact hle i (hij.trans_lt hj)
  · show d.posted.length < (d.posted ++ [_]).length
    rw [length_append]
    exact lt_succ_self _
  · rcases hlast i hi with hlt | rfl
    · rw [hold i hlt]
      exact h.known_le i hmoved hlt
    · rw [hnew]
      exact hknown.trans hreported
  · rw [hold i (hi.trans_le hmoved.length_le)]
    exact h.le_known i hi

theorem Inv.perform (h : Inv s known freed) {a : Action} (ha : Device.Allowed rules a s.device) {clock : ℕ} :
    Inv ⟨s.queue, s.device.perform a, clock, s.history⟩ known freed := by
  obtain ⟨heads, hheads⟩ := h.heads
  cases a with
  | fetch => exact ⟨h.submission.fetch ha, h.completion.frame rfl, heads, hheads.frame rfl⟩
  | post head e =>
    obtain ⟨hroom, hreported, hhead, -⟩ := ha
    exact ⟨h.submission.post hreported hhead, h.completion.post hroom, _,
      hheads.post h.submission.size_eq h.completion.moved h.submission.known_le hreported⟩

/-- What each action of the controller preserves, its attempts preserve. -/
theorem Device.foldl_act (hstep : ∀ d a, Device.Allowed rules a d → P d → P (d.perform a))
    (actions : List Action) (hd : P d) : P (actions.foldl (Device.act rules) d) := by
  refine foldlRecOn actions _ hd fun d hd a _ => ?_
  by_cases ha : Device.Allowed rules a d
  · rw [Device.act, if_pos ha]
    exact hstep d a ha hd
  · rw [Device.act, if_neg ha]
    exact hd

theorem State.leads_advance (s : State) : Device.Leads ctrl.rules s.device (s.advance ctrl).device :=
  Device.foldl_act (P := fun d => Device.Leads ctrl.rules s.device d) (fun _ _ ha hd => hd.tail (.act ha)) _ .refl

/-- The controller does not see the fields of the host. -/
theorem State.advance_onQueue (s : State) (f : CommandQueue → CommandQueue) :
    (s.onQueue f).advance ctrl = (s.advance ctrl).onQueue f := rfl

/-- **Whatever the controller does, the invariant stays.** -/
theorem Inv.advance (h : Inv s known freed) : Inv (s.advance ctrl) known freed :=
  Device.foldl_act (P := fun d => Inv ⟨s.queue, d, s.clock + 1, s.history⟩ known freed)
    (fun _ _ ha hd => hd.perform ha) _ ⟨h.submission, h.completion, h.heads⟩

theorem Inv.attempt (h : Inv s known freed) (actions : List Action) : Inv (s.attempt rules actions) known freed :=
  Device.foldl_act (P := fun d => Inv ⟨s.queue, d, s.clock, s.history⟩ known freed)
    (fun _ _ ha hd => hd.perform ha) actions ⟨h.submission, h.completion, h.heads⟩
end Controller

/-! ## The host -/

section
variable (h : Inv s known freed)
include h

theorem Inv.known_le :
    known ≤ s.history.flushed.length ∧ s.history.flushed.length ≤ (s.history.flushed ++ s.history.pending).length := by
  refine ⟨?_, length_append ▸ le_add_right _ _⟩
  exact (h.submission.known_le.trans h.submission.reported_le).trans h.submission.fetched.length_le

/-- When all entries are moved, the host knows what is reported. -/
theorem Inv.known_eq (hall : s.history.moved.length = s.device.posted.length) : known = s.device.reported := by
  obtain ⟨head, hheads⟩ := h.heads
  refine le_antisymm h.submission.known_le ?_
  rcases hheads.reported with hzero | ⟨i, hi, hle⟩
  · rw [hzero]
    exact zero_le _
  · exact hle.trans (hheads.le_known i (hall ▸ hi))

theorem Inv.tailLocal_add : s.queue.submissionQueueTailLocal.add 1 =
    .ok ⟨((s.history.flushed ++ s.history.pending).length + 1) % s.queue.submissionQueueSize,
      s.queue.submissionQueueSize⟩ := by
  have htwo := h.submission.two_le
  have hle := h.submission.le_64
  rw [h.submission.tailLocal, WrappingValue.add_one (by omega) (by omega)]

/-- **Full** means that the slot after the next one is the head. -/
theorem Inv.isFullForSubmission : s.queue.isFullForSubmission =
    .ok (decide ((s.history.flushed ++ s.history.pending).length + 1 = known + s.queue.submissionQueueSize)) := by
  have hsub := h.submission
  have hroom := hsub.room
  obtain ⟨hknown, hflushed⟩ := h.known_le
  rw [CommandQueue.isFullForSubmission, h.tailLocal_add, ok_bind]
  refine congrArg Except.ok (decide_eq_decide.2 ?_)
  rw [hsub.head, ← add_mod_right known, eq_comm]
  exact Ring.mod_inj (by omega) (by omega)

/-- The host learns from an entry how many commands are consumed. -/
theorem Inv.see (he : s.device.posted[s.history.moved.length]? = some e) :
    ∃ head : ℕ → ℕ, Heads s.queue s.device s.history (head s.history.moved.length) head ∧
      Inv (s.onQueue (CommandQueue.setSubmissionHead e.submissionQueueHead)) (head s.history.moved.length) freed := by
  obtain ⟨head, hheads⟩ := h.heads
  obtain ⟨hlt, -⟩ := List.getElem?_eq_some_iff.1 he
  have hsub := h.submission
  have hknown := hheads.known_le _ le_rfl hlt
  have hseen : Heads s.queue s.device s.history (head s.history.moved.length) head := { hheads with
      known_le := fun i hi => hheads.mono _ i hi
      le_known := fun i hi => hheads.mono i _ hi.le hlt }
  exact ⟨head, hseen, { hsub with
    head := hheads.entry _ e he
    room := hsub.room.trans_le (Nat.add_le_add_right hknown _)
    known_le := hheads.le_reported _ hlt }, h.completion.frame rfl, head, hseen.frame rfl⟩

/-- **The phase bit tells** whether the next entry has been posted. -/
theorem Inv.read : (s.device.posted[s.history.moved.length]? =
        some (s.device.completionRing s.queue.completionQueueHead.value) ∧
      (s.device.completionRing s.queue.completionQueueHead.value).phase = s.queue.completionExpectedPhase) ∨
    (s.history.moved.length = s.device.posted.length ∧
      (s.device.completionRing s.queue.completionQueueHead.value).phase ≠ s.queue.completionExpectedPhase) := by
  have hcomp := h.completion
  have htwo := hcomp.two_le
  have hroom := hcomp.room
  have hfreed := hcomp.freed_le
  have hslot : s.queue.completionQueueHead.value = s.history.moved.length % s.queue.completionQueueSize := by
    rw [hcomp.head]
  rw [hslot, hcomp.phase]
  rcases lt_or_eq_of_le hcomp.moved.length_le with hlt | heq
  · have hread := hcomp.ring s.history.moved.length (by omega) hlt
    exact .inl ⟨hread, (hcomp.stamped _ _ hread).1⟩
  · refine .inr ⟨heq, ?_⟩
    rcases lt_or_ge s.history.moved.length s.queue.completionQueueSize with hlap | hlap
    · -- nothing has been written there yet
      rw [mod_eq_of_lt hlap, hcomp.blank _ heq.ge hlap, Ring.lap_of_lt hlap]
      exact Bool.false_ne_true
    · -- the entry there is one of the lap before
      obtain ⟨i, hi⟩ := Nat.exists_eq_add_of_le' hlap
      have hread := hcomp.ring i (by omega) (by omega)
      rw [hi, add_mod_right, (hcomp.stamped _ _ hread).1, Ring.lap_add (by omega)]
      exact (Bool.not_ne_self _).symm

/-- **An entry is moved** into the list of completions; the host has learnt what it reports. -/
theorem Inv.move (hheads : Heads s.queue s.device s.history known head)
    (hseen : head s.history.moved.length ≤ known) (he : s.device.posted[s.history.moved.length]? = some e)
    {l1 l2 : List CommonCompletionEntry} (hl : s.queue.completions = l1 ++ l2)
    (h1 : ∀ a ∈ l1, a.commandIdent < e.commandIdent) (h2 : ∀ a ∈ l2, e.commandIdent < a.commandIdent) :
    Inv (s.move ⟨(s.history.moved.length + 1) % s.queue.completionQueueSize, s.queue.completionQueueSize⟩
      (l1 ++ e :: l2) e) known freed := by
  have hcomp := h.completion
  have hlength : (s.history.moved ++ [e]).length = s.history.moved.length + 1 := length_append
  refine ⟨h.submission.frame rfl,
    { hcomp with head := ?_, freed_le := ?_, moved := ?_, phase := ?_, sorted := ?_, kept := ?_ }, head,
    { hheads with known_le := fun i hi => ?_, le_known := fun i hi => ?_ }⟩
  · show _ = (⟨(s.history.moved ++ [e]).length % _, _⟩ : WrappingValue)
    rw [hlength]
    rfl
  · show freed ≤ (s.history.moved ++ [e]).length
    rw [hlength]
    exact hcomp.freed_le.trans (le_succ _)
  · obtain ⟨rest, hrest⟩ := hcomp.moved
    rw [← hrest, getElem?_append_right le_rfl, Nat.sub_self] at he
    cases rest with
    | nil => cases he
    | cons e' rest =>
      refine ⟨rest, ?_⟩
      show s.history.moved ++ [e] ++ rest = s.device.posted
      rw [← hrest, ← Option.some.inj he, append_assoc]
      rfl
  · show (if (s.history.moved.length + 1) % s.queue.completionQueueSize = 0 then
        !s.queue.completionExpectedPhase else s.queue.completionExpectedPhase) =
      Ring.lap s.queue.completionQueueSize (s.history.moved ++ [e]).length
    rw [hlength, Ring.lap_succ, hcomp.phase]
  · have hsorted := hcomp.sorted
    rw [hl] at hsorted
    exact hsorted.insert h1 h2
  · have hkept := hcomp.kept
    rw [hl] at hkept
    show (l1 ++ e :: l2 ++ s.history.taken).Perm (s.history.moved ++ [e])
    have hfront : (l1 ++ e :: l2 ++ s.history.taken).Perm (e :: (l1 ++ l2 ++ s.history.taken)) := by
      rw [append_assoc, append_assoc]
      exact perm_middle
    exact (hfront.trans (hkept.cons e)).trans (perm_append_singleton e _).symm
  · have hle : s.history.moved.length + 1 ≤ i := hlength ▸ hi
    exact hheads.known_le i (le_of_succ_le hle)
  · have hlt : i < s.history.moved.length + 1 := hlength ▸ hi
    rcases Nat.lt_succ_iff_lt_or_eq.1 hlt with hlt | rfl
    · exact hheads.le_known i hlt
    · exact hseen

/-- The controller is told what has been read. -/
theorem Inv.ringHead : Inv s.ringHead known s.history.moved.length := by
  have hcomp := h.completion
  obtain ⟨head, hheads⟩ := h.heads
  exact ⟨h.submission.frame rfl, { hcomp with
    doorbell := congrArg WrappingValue.value hcomp.head
    freed_le := le_rfl
    room := hcomp.room.trans_le (Nat.add_le_add_right hcomp.freed_le _) }, head, hheads.frame rfl⟩

/-- Entries are taken out of the list of completions. -/
theorem Inv.take {rest es : List CommonCompletionEntry} (hsorted : Keyed.Sorted commandIdent rest)
    (hperm : (rest ++ es).Perm s.queue.completions) : Inv (s.take rest es) known freed := by
  have hcomp := h.completion
  obtain ⟨head, hheads⟩ := h.heads
  refine ⟨h.submission.frame rfl, { hcomp with sorted := hsorted, kept := ?_ }, head, hheads.frame rfl⟩
  show (rest ++ (es ++ s.history.taken)).Perm s.history.moved
  rw [← append_assoc]
  exact (hperm.append_right _).trans hcomp.kept

/-- The slots that the controller has been told about and has not consumed are those of the flushed
commands. -/
theorem Inv.mem_outstanding {slot : ℕ} (hslot : slot ∈ s.device.outstanding) :
    ∃ i, s.device.fetched.length ≤ i ∧ i < s.history.flushed.length ∧ slot = i % s.queue.submissionQueueSize := by
  have hsub := h.submission
  have htwo := hsub.two_le
  have hroom := hsub.room
  have hknown := hsub.known_le.trans hsub.reported_le
  have hle := hsub.fetched.length_le
  obtain ⟨-, hflushed⟩ := h.known_le
  obtain ⟨i, hi, rfl⟩ := mem_map.1 hslot
  rw [mem_range, hsub.size_eq, hsub.doorbell, Ring.dist (by omega) hle (by omega)] at hi
  exact ⟨s.device.fetched.length + i, le_add_right _ _, by omega, by rw [hsub.size_eq]⟩

/-- **A command is written** into a free slot. -/
theorem Inv.write (hfull : (s.history.flushed ++ s.history.pending).length + 1 ≠ known + s.queue.submissionQueueSize)
    (c : CommonCommand) :
    Inv ((s.onQueue fun q => q.bumpIdentifier.setTailLocal
        ⟨((s.history.flushed ++ s.history.pending).length + 1) % s.queue.submissionQueueSize,
          s.queue.submissionQueueSize⟩).write s.queue.submissionQueueTailLocal.value c) known freed := by
  have hsub := h.submission
  obtain ⟨head, hheads⟩ := h.heads
  have hroom := hsub.room
  have hknown := hsub.known_le.trans hsub.reported_le
  have hvalue : s.queue.submissionQueueTailLocal.value =
      (s.history.flushed ++ s.history.pending).length % s.queue.submissionQueueSize := by rw [hsub.tailLocal]
  have hlength : (s.history.flushed ++ (s.history.pending ++ [c])).length =
      (s.history.flushed ++ s.history.pending).length + 1 := by
    rw [← append_assoc]
    exact length_append
  have hfree : s.queue.submissionQueueTailLocal.value ∉ s.device.outstanding := by
    intro hmem
    obtain ⟨i, hi, hlt, heq⟩ := h.mem_outstanding hmem
    obtain ⟨-, hflushed⟩ := h.known_le
    rw [hvalue] at heq
    have hsame := (Ring.mod_inj (by omega) (by omega)).1 heq.symm
    omega
  refine ⟨{ hsub with tailLocal := ?_, room := ?_, ring := ?_, intact := ?_ }, h.completion.frame rfl, head,
    hheads.frame rfl⟩
  · show _ = (⟨(s.history.flushed ++ (s.history.pending ++ [c])).length % _, _⟩ : WrappingValue)
    rw [hlength]
    rfl
  · show (s.history.flushed ++ (s.history.pending ++ [c])).length < known + s.queue.submissionQueueSize
    omega
  · show Ring.Holds s.queue.submissionQueueSize
      (Function.update s.device.submissionRing s.queue.submissionQueueTailLocal.value c)
      (s.history.flushed ++ (s.history.pending ++ [c])) s.device.fetched.length
    rw [← append_assoc, hvalue]
    exact hsub.ring.write (by omega)
  · show (s.history.overwritten || decide (s.queue.submissionQueueTailLocal.value ∈ s.device.outstanding)) = false
    rw [hsub.intact, decide_eq_false hfree]
    rfl

/-- **The tail is told** to the controller. -/
theorem Inv.ringTail : Inv s.ringTail known freed := by
  have hsub := h.submission
  obtain ⟨head, hheads⟩ := h.heads
  have hvalue : s.queue.submissionQueueTailLocal.value =
      (s.history.flushed ++ s.history.pending).length % s.queue.submissionQueueSize := by rw [hsub.tailLocal]
  have hnil : s.ringTail.history.flushed ++ s.ringTail.history.pending =
      s.history.flushed ++ s.history.pending := append_nil _
  exact ⟨{ hsub with
    tail := hvalue
    doorbell := hvalue
    tailLocal := hnil ▸ hsub.tailLocal
    room := hnil ▸ hsub.room
    fetched := hsub.fetched.trans (prefix_append _ _)
    ring := hnil ▸ hsub.ring }, h.completion.frame rfl, head, hheads.frame rfl⟩

/-- **Cancelling** goes back to the tail the controller knows. -/
theorem Inv.cancel : Inv s.cancel known freed := by
  have hsub := h.submission
  obtain ⟨head, hheads⟩ := h.heads
  obtain ⟨-, hflushed⟩ := h.known_le
  have hnil : s.cancel.history.flushed ++ s.cancel.history.pending = s.history.flushed := append_nil _
  refine ⟨{ hsub with tailLocal := ?_, room := ?_, ring := ?_ }, h.completion.frame rfl, head, hheads.frame rfl⟩
  · rw [hnil]
    exact congrArg (WrappingValue.mk · s.queue.submissionQueueSize) hsub.tail
  · rw [hnil]
    exact hflushed.trans_lt hsub.room
  · rw [hnil]
    exact hsub.ring.of_append
end

/-! ## Polling -/

/-- What polling leaves as it is, and that the entries `es` were taken out. -/
structure Took (rules : Rules) (es : List CommonCompletionEntry) (s s' : State) : Prop where
  submissionSize : s'.queue.submissionQueueSize = s.queue.submissionQueueSize
  completionSize : s'.queue.completionQueueSize = s.queue.completionQueueSize
  next : s'.queue.nextCommandIdentifier = s.queue.nextCommandIdentifier
  submitted : s'.history.submitted = s.history.submitted
  flushed : s'.history.flushed = s.history.flushed
  pending : s'.history.pending = s.history.pending
  taken : s'.history.taken = es ++ s.history.taken
  device : Device.Leads rules s.device s'.device
  moved : s.history.moved <+: s'.history.moved

/-- Nothing was taken out. -/
abbrev Polled (rules : Rules) : State → State → Prop := Took rules []

/-- The next entry cannot be stored: there is one with its identifier. -/
def State.Blocked (err : PollCompletionError) (s : State) : Prop :=
  ∃ e, s.device.posted[s.history.moved.length]? = some e ∧ err = .identifierStillInUse e.commandIdent ∧
    ∃ e' ∈ s.queue.completions, e'.commandIdent = e.commandIdent

variable {s'' : State} {es es' : List CommonCompletionEntry} {ε : Type}

theorem Polled.refl : Polled ctrl.rules s s := ⟨rfl, rfl, rfl, rfl, rfl, rfl, rfl, .refl, prefix_rfl⟩

theorem Took.posted (h : Took ctrl.rules es s s') : s.device.posted <+: s'.device.posted := h.device.posted

theorem Took.trans (h : Took ctrl.rules es s s') (h' : Took ctrl.rules es' s' s'') :
    Took ctrl.rules (es' ++ es) s s'' :=
  ⟨h'.submissionSize.trans h.submissionSize, h'.completionSize.trans h.completionSize, h'.next.trans h.next,
    h'.submitted.trans h.submitted, h'.flushed.trans h.flushed, h'.pending.trans h.pending,
    by rw [h'.taken, h.taken, append_assoc], h.device.trans h'.device, h.moved.trans h'.moved⟩

theorem polled_advance : Polled ctrl.rules s (s.advance ctrl) :=
  ⟨rfl, rfl, rfl, rfl, rfl, rfl, rfl, s.leads_advance, prefix_rfl⟩

/-- **What a single poll does.** -/
theorem Inv.pollSingle_wp (h : Inv s known freed) : (pollSingleCompletion ctrl).wp
      (fun found s' => Polled ctrl.rules s s' ∧ (∃ known', Inv s' known' freed) ∧
        s'.history.moved.length = s.history.moved.length + found.toNat ∧
        (found = false → s'.history.moved.length = s'.device.posted.length))
      (fun err s' => Polled ctrl.rules s s' ∧ (∃ known', Inv s' known' freed) ∧
        s'.history.moved.length = s.history.moved.length ∧ s'.Blocked err) s := by
  have h1 : Inv (s.advance ctrl) known freed := h.advance
  have hpolled1 : Polled ctrl.rules s (s.advance ctrl) := polled_advance
  have hmoved1 : (s.advance ctrl).history.moved = s.history.moved := rfl
  rw [pollSingleCompletion, tick, wp_bind, wp_modify, wp_bind, wp_get]
  generalize s.advance ctrl = s1 at *
  rcases h1.read with ⟨hread, hphase⟩ | ⟨hlast, hphase⟩
  · rw [if_neg (not_not.2 hphase), wp_bind, wp_modify, wp_bind, wp_get]
    have h2 : Inv (s1.advance ctrl) known freed := h1.advance
    have hpolled2 : Polled ctrl.rules s1 (s1.advance ctrl) := polled_advance
    have hqueue : (s1.advance ctrl).queue = s1.queue := rfl
    have hmoved2 : (s1.advance ctrl).history.moved = s1.history.moved := rfl
    generalize s1.advance ctrl = s2 at *
    rw [← hqueue]
    -- the entry is still there: the controller does not go round the ring before the head is rung
    have hread2 : s2.device.posted[s2.history.moved.length]? =
          some (s2.device.completionRing s2.queue.completionQueueHead.value) ∧
        (s2.device.completionRing s2.queue.completionQueueHead.value).phase = s2.queue.completionExpectedPhase := by
      rcases h2.read with hread2 | ⟨hlast, -⟩
      · exact hread2
      · obtain ⟨hlt, -⟩ := List.getElem?_eq_some_iff.1 hread
        have hle := hpolled2.posted.length_le
        rw [hmoved2] at hlast
        omega
    generalize s2.device.completionRing s2.queue.completionQueueHead.value = e at *
    obtain ⟨he, hphase2⟩ := hread2
    have hident := (h2.completion.stamped _ e he).2
    have hpolled : Polled ctrl.rules s s2 := hpolled1.trans hpolled2
    obtain ⟨head, hseen, h3⟩ := h2.see he
    simp only [wp_bind, wp_assert, wp_modify, hphase2, hident, decide_true, true_and]
    cases hsearch : Keyed.search commandIdent e.commandIdent s2.queue.completions with
    | ok index =>
      obtain ⟨l1, e', l2, hl, -, hsame⟩ := Keyed.search_eq_ok hsearch
      refine ⟨{ hpolled with }, ⟨_, h3⟩, congrArg List.length (hmoved2.trans hmoved1), e, he, rfl, e', ?_, hsame⟩
      show e' ∈ s2.queue.completions
      rw [hl]
      exact mem_append_cons_self
    | error index =>
      obtain ⟨l1, l2, hl, rfl, hlt, hgt⟩ := Keyed.search_eq_error hsearch h2.completion.sorted
      have htwo := h2.completion.two_le
      have hle := h2.completion.le_256
      have hadd : s2.queue.completionQueueHead.add 1 =
          .ok ⟨(s2.history.moved.length + 1) % s2.queue.completionQueueSize, s2.queue.completionQueueSize⟩ := by
        rw [h2.completion.head, WrappingValue.add_one (by omega) (by omega)]
      have hinsert : s2.queue.completions.insertIdx l1.length e = l1 ++ e :: l2 := by rw [hl, insertIdx_append_length]
      simp only [wp_bind, hadd, lift_ok, wp_pure, wp_modify, hinsert]
      refine ⟨{ hpolled with moved := hpolled.moved.trans (prefix_append _ _) }, ⟨_, h3.move (hseen.frame rfl) le_rfl he hl hlt hgt⟩, ?_, ?_⟩
      · show (s2.history.moved ++ [e]).length = s.history.moved.length + 1
        rw [length_append, hmoved2, hmoved1]
        rfl
      · exact fun hfound => absurd hfound.symm Bool.false_ne_true
  · rw [if_pos hphase]
    exact ⟨hpolled1, ⟨known, h1⟩, congrArg List.length hmoved1, fun _ => hlast⟩

/-- **What the loop does**: it ends, because there is no more than a ring of entries. -/
theorem Inv.pollLoop_wp {fuel : ℕ} {anyFound : Bool} (h : Inv s known freed)
    (hfuel : freed + s.queue.completionQueueSize ≤ s.history.moved.length + fuel) :
    (pollLoop ctrl fuel anyFound : Prog State ε PollCompletionsResult).wp
      (fun r s' => Polled ctrl.rules s s' ∧ (∃ known', Inv s' known' freed) ∧
        (r.someNewEntries = true ↔ anyFound = true ∨ s.history.moved.length < s'.history.moved.length) ∧
        (r.errorOnAnyEntry = none → s'.history.moved.length = s'.device.posted.length) ∧
        ∀ err, r.errorOnAnyEntry = some err → s'.Blocked err)
      (fun _ _ => False) s := by
  induction fuel generalizing s known anyFound with
  | zero =>
    have hroom := h.completion.room
    have hle := h.completion.moved.length_le
    omega
  | succ fuel ih =>
    rw [pollLoop, wp_bind, wp_attempt]
    refine wp_mono h.pollSingle_wp ?_ ?_
    · rintro found s1 ⟨hpolled, ⟨known', h1⟩, hmoved, hlast⟩
      cases found with
      | true =>
        have hsize := hpolled.completionSize
        have hmoved : s1.history.moved.length = s.history.moved.length + 1 := hmoved
        refine wp_mono (ih h1 (by omega)) ?_ fun _ _ => False.elim
        rintro r s2 ⟨hpolled2, hinv, hfound, hdone⟩
        refine ⟨hpolled.trans hpolled2, hinv, ?_, hdone⟩
        have hle := hpolled2.moved.length_le
        exact iff_of_true (hfound.2 (.inl rfl)) (.inr (by omega))
      | false =>
        have hmoved : s1.history.moved.length = s.history.moved.length := hmoved
        refine ⟨hpolled, ⟨known', h1⟩, ?_, fun _ => hlast rfl, fun err herr => ?_⟩
        · exact (or_iff_left (by omega)).symm
        · cases herr
    · rintro err s1 ⟨hpolled, hinv, hmoved, hblocked⟩
      refine ⟨hpolled, hinv, (or_iff_left (by omega)).symm, fun hnone => ?_, fun err' herr => ?_⟩
      · cases hnone
      · cases herr
        exact hblocked

theorem State.Blocked.advance {err : PollCompletionError} (h : s.Blocked err) : (s.advance ctrl).Blocked err := by
  obtain ⟨e, he, herr, e', he', hsame⟩ := h
  obtain ⟨rest, hrest⟩ : s.device.posted <+: (s.advance ctrl).device.posted := s.leads_advance.posted
  refine ⟨e, ?_, herr, e', ?_, hsame⟩
  · obtain ⟨hlt, -⟩ := List.getElem?_eq_some_iff.1 he
    show (s.advance ctrl).device.posted[s.history.moved.length]? = some e
    rw [← hrest, List.getElem?_append_left hlt]
    exact he
  · exact he'

/-- **What polling does.** -/
theorem Inv.pollCompletions_wp (h : Inv s known s.history.moved.length) :
    (pollCompletions ctrl : Prog State ε PollCompletionsResult).wp (fun r s' => Polled ctrl.rules s s' ∧ Resting s' ∧
        (r.someNewEntries = true ↔ s.history.moved.length < s'.history.moved.length) ∧
        (r.errorOnAnyEntry = none → s.device.posted.length ≤ s'.history.moved.length) ∧
        ∀ err, r.errorOnAnyEntry = some err → s'.Blocked err)
      (fun _ _ => False) s := by
  rw [pollCompletions, wp_bind, wp_get, wp_bind]
  refine wp_mono (h.pollLoop_wp (by omega)) ?_ fun _ _ => False.elim
  rintro r s1 ⟨hpolled, ⟨known1, h1⟩, hfound, hdone, hblocked⟩
  rw [or_iff_right Bool.false_ne_true] at hfound
  have hposted : r.errorOnAnyEntry = none → s.device.posted.length ≤ s1.history.moved.length :=
    fun hnone => hpolled.posted.length_le.trans (hdone hnone).ge
  cases hnew : r.someNewEntries with
  | false =>
    have hsame : s1.history.moved.length = s.history.moved.length := by
      have hle := hpolled.moved.length_le
      rw [hnew, iff_false_left Bool.false_ne_true] at hfound
      omega
    rw [if_neg Bool.false_ne_true]
    exact ⟨hpolled, ⟨known1, hsame ▸ h1⟩, hfound, hposted, hblocked⟩
  | true =>
    have h2 : Inv (s1.advance ctrl) known1 s.history.moved.length := h1.advance
    have hpolled2 : Polled ctrl.rules s1 (s1.advance ctrl) := polled_advance
    have hmoved : (s1.advance ctrl).history.moved = s1.history.moved := rfl
    have hlast : ∀ err, r.errorOnAnyEntry = some err → (s1.advance ctrl).Blocked err :=
      fun err herr => (hblocked err herr).advance
    rw [if_pos rfl, tick, wp_bind, wp_modify, wp_bind, wp_modify, wp_pure]
    generalize s1.advance ctrl = s2 at *
    have hall := hpolled.trans hpolled2
    refine ⟨{ hall with device := hall.device.tail (.ringCompletionHead _ _) }, ⟨known1, h2.ringHead⟩, ?_, ?_, hlast⟩
    · show _ ↔ _ < s2.history.moved.length
      rw [hmoved]
      exact hfound
    · show _ → _ ≤ s2.history.moved.length
      rw [hmoved]
      exact hposted

/-! ## Submitting, flushing, waiting -/

/-- A command was written. -/
structure Wrote (rules : Rules) (c : CommonCommand) (s s' : State) : Prop where
  submissionSize : s'.queue.submissionQueueSize = s.queue.submissionQueueSize
  next : s'.queue.nextCommandIdentifier = (s.queue.nextCommandIdentifier + 1) % 2 ^ 16
  submitted : s'.history.submitted = s.history.submitted + 1
  flushed : s'.history.flushed = s.history.flushed
  pending : s'.history.pending = s.history.pending ++ [c]
  taken : s'.history.taken = s.history.taken
  device : Device.Leads rules s.device s'.device
  moved : s.history.moved <+: s'.history.moved

/-- The written commands are told to the controller. -/
structure Told (rules : Rules) (s s' : State) : Prop where
  submissionSize : s'.queue.submissionQueueSize = s.queue.submissionQueueSize
  next : s'.queue.nextCommandIdentifier = s.queue.nextCommandIdentifier
  submitted : s'.history.submitted = s.history.submitted
  flushed : s'.history.flushed = s.history.flushed ++ s.history.pending
  pending : s'.history.pending = []
  taken : s'.history.taken = s.history.taken
  device : Device.Leads rules s.device s'.device
  moved : s'.history.moved = s.history.moved

theorem Inv.ensureNotFull_wp (h : Inv s known s.history.moved.length) : (ensureNotFull ctrl).wp
      (fun _ s' => Polled ctrl.rules s s' ∧ ∃ known', Inv s' known' s'.history.moved.length ∧
        (s'.history.flushed ++ s'.history.pending).length + 1 ≠ known' + s'.queue.submissionQueueSize)
      (fun _ s' => Polled ctrl.rules s s' ∧ Resting s' ∧ s.queue.isFullForSubmission = .ok true) s := by
  rw [ensureNotFull, wp_bind, wp_get, wp_bind, h.isFullForSubmission, lift_ok, wp_pure]
  by_cases hlt : (s.history.flushed ++ s.history.pending).length + 1 = known + s.queue.submissionQueueSize
  · rw [if_pos (decide_eq_true hlt), wp_bind]
    have hok := congrArg (Except.ok (ε := Fault)) (decide_eq_true hlt)
    refine wp_mono h.pollCompletions_wp ?_ fun _ _ => False.elim
    rintro r s1 ⟨hpolled, ⟨known1, h1⟩, -, -, -⟩
    rw [wp_bind, wp_get]
    cases r.someNewEntries with
    | false => exact ⟨hpolled, ⟨known1, h1⟩, hok⟩
    | true =>
      rw [if_pos rfl, wp_bind, h1.isFullForSubmission, lift_ok, wp_pure]
      by_cases hlt1 : (s1.history.flushed ++ s1.history.pending).length + 1 = known1 + s1.queue.submissionQueueSize
      · rw [if_pos (decide_eq_true hlt1)]
        exact ⟨hpolled, ⟨known1, h1⟩, hok⟩
      · rw [if_neg (fun hd => hlt1 (of_decide_eq_true hd))]
        exact ⟨hpolled, known1, h1, hlt1⟩
  · rw [if_neg (fun hd => hlt (of_decide_eq_true hd))]
    exact ⟨Polled.refl, known, h, hlt⟩

/-- **What `submit` does.** -/
theorem Inv.submit_wp (h : Inv s known s.history.moved.length) (command : CommonCommand) : (submit ctrl command).wp
      (fun ident s' => ident = s.queue.nextCommandIdentifier ∧
        Wrote ctrl.rules (command.withIdent s.queue.nextCommandIdentifier s.history.submitted) s s' ∧
        Resting s')
      (fun _ s' => Polled ctrl.rules s s' ∧ Resting s' ∧ s.queue.isFullForSubmission = .ok true) s := by
  rw [submit, wp_bind]
  refine wp_mono h.ensureNotFull_wp ?_ fun _ _ herr => herr
  rintro - s1 ⟨hpolled, known1, h1, hfull⟩
  rw [wp_bind, wp_get, wp_bind, h1.tailLocal_add, lift_ok, wp_pure, tick, wp_bind,
    wp_modify, wp_bind, wp_modify, wp_bind, wp_modify, wp_pure,
    s1.advance_onQueue, hpolled.next, hpolled.submitted]
  have h2 : Inv (s1.advance ctrl) known1 (s1.advance ctrl).history.moved.length := h1.advance
  have hpolled2 : Polled ctrl.rules s1 (s1.advance ctrl) := polled_advance
  have hqueue : (s1.advance ctrl).queue = s1.queue := rfl
  have hhistory : (s1.advance ctrl).history = s1.history := rfl
  generalize s1.advance ctrl = s2 at *
  rw [← hqueue, ← hhistory] at hfull ⊢
  have hall := hpolled.trans hpolled2
  refine ⟨rfl, ⟨hall.submissionSize, congrArg (fun x => (x + 1) % 2 ^ 16) hall.next,
    congrArg (· + 1) hall.submitted, hall.flushed, ?_, hall.taken, hall.device.tail (.writeSlot _ _ _),
    hall.moved⟩, known1, h2.write hfull _⟩
  exact congrArg (· ++ _) hall.pending

/-- There is something to flush exactly if a command was written and not flushed. -/
theorem Inv.hasSubmissionsPendingFlush (h : Inv s known freed) :
    s.queue.hasSubmissionsPendingFlush = true ↔ s.history.pending ≠ [] := by
  have hsub := h.submission
  have hroom := hsub.room
  obtain ⟨hknown, hflushed⟩ := h.known_le
  have hsame : s.queue.submissionQueueTail = s.queue.submissionQueueTailLocal.value ↔ s.history.pending = [] := by
    rw [hsub.tail, hsub.tailLocal, Ring.mod_inj hflushed (by omega), length_append, ← length_eq_zero_iff]
    omega
  rw [CommandQueue.hasSubmissionsPendingFlush, decide_eq_true_eq, ne_eq, hsame]

/-- **What `flush` does.** -/
theorem Inv.flush_wp (h : Inv s known s.history.moved.length) : (flush ctrl : Prog State ε Unit).wp
      (fun _ s' => Told ctrl.rules s s' ∧ Inv s' known s'.history.moved.length) (fun _ _ => False) s := by
  have hpending := h.hasSubmissionsPendingFlush
  rw [flush, wp_bind, wp_get]
  cases hflush : s.queue.hasSubmissionsPendingFlush with
  | false =>
    have hnil : s.history.pending = [] := by
      by_contra hne
      exact Bool.false_ne_true (hflush.symm.trans (hpending.2 hne))
    rw [if_pos (by rfl)]
    refine ⟨⟨rfl, rfl, rfl, ?_, hnil, rfl, .refl, rfl⟩, h⟩
    rw [hnil, append_nil]
  | true =>
    have h1 : Inv (s.advance ctrl) known (s.advance ctrl).history.moved.length := h.advance
    rw [if_neg (by decide), tick, wp_bind, wp_modify, wp_modify]
    exact ⟨⟨rfl, rfl, rfl, rfl, rfl, rfl, s.leads_advance.tail (.ringSubmissionTail _ _), rfl⟩, h1.ringTail⟩

/-- **What taking an entry out does.** -/
theorem Inv.takeCompletion_wp (ctrl : Controller) (h : Inv s known s.history.moved.length) (ident : ℕ) :
    (takeCompletion ident : Prog State ε (Option CommonCompletionEntry)).wp
      (fun r s' => Took ctrl.rules r.toList s s' ∧ Inv s' known s'.history.moved.length ∧
        ∀ e, r = some e → e.commandIdent = ident ∧ e ∈ s.queue.completions)
      (fun _ _ => False) s := by
  rw [takeCompletion, wp_bind, wp_get]
  cases hsearch : Keyed.search commandIdent ident s.queue.completions with
  | error index => exact ⟨Polled.refl, h, nofun⟩
  | ok index =>
    obtain ⟨l1, e, l2, hl, rfl, hident⟩ := Keyed.search_eq_ok hsearch
    have hread : s.queue.completions[l1.length]? = some e := by
      rw [hl, getElem?_append_right le_rfl, Nat.sub_self]
      rfl
    have herase : s.queue.completions.eraseIdx l1.length = l1 ++ l2 := by rw [hl, eraseIdx_append_cons]
    have hsorted := h.completion.sorted
    rw [hl] at hsorted
    have hperm : (l1 ++ l2 ++ [e]).Perm s.queue.completions := by
      rw [hl]
      exact (perm_append_singleton e _).trans perm_middle.symm
    have hmem : e ∈ s.queue.completions := hl ▸ mem_append_cons_self
    simp only [wp_bind, hread, expect_some, wp_pure, wp_modify, herase]
    refine ⟨⟨rfl, rfl, rfl, rfl, rfl, rfl, rfl, .refl, prefix_rfl⟩, h.take hsorted.erase hperm, ?_⟩
    rintro e' he'
    cases he'
    exact ⟨hident, hmem⟩

/-- A wait that began in `s` ends with the entry, if there is one, or with one that cannot be stored. -/
abbrev Waits (ctrl : Controller) (ident : ℕ) (s : State)
    (m : Prog State PollCompletionError (Option CommonCompletionEntry)) : State → Prop :=
  m.wp (fun r s' => Took ctrl.rules r.toList s s' ∧ Resting s' ∧ ∀ e, r = some e → e.commandIdent = ident)
    fun err s' => Polled ctrl.rules s s' ∧ Resting s' ∧ s'.Blocked err

/-- **What the loop of `waitFor` does**, however long it waits. -/
theorem Inv.waitLoop_wp (h : Inv s known s.history.moved.length) (ident fuel : ℕ) :
    Waits ctrl ident s (waitLoop ctrl ident fuel) s := by
  induction fuel generalizing s known with
  | zero => exact ⟨Polled.refl, ⟨known, h⟩, nofun⟩
  | succ fuel ih =>
    rw [Waits, waitLoop, wp_bind]
    refine wp_mono h.pollCompletions_wp ?_ fun _ _ => False.elim
    rintro r s1 ⟨hpolled, ⟨known1, h1⟩, -, -, hblocked⟩
    -- the rest of the wait, if there is nothing yet
    have hrest : ∀ {s2 known2}, Polled ctrl.rules s s2 → Inv s2 known2 s2.history.moved.length →
        Waits ctrl ident s (waitLoop ctrl ident fuel) s2 := by
      intro s2 known2 hpolled2 h2
      refine wp_mono (ih h2) (fun r s' hr => ⟨?_, hr.2⟩) fun err s' herr => ⟨hpolled2.trans herr.1, herr.2⟩
      have htook := hpolled2.trans hr.1
      rw [append_nil] at htook
      exact htook
    cases r.someNewEntries with
    | true =>
      rw [if_pos rfl, wp_bind]
      refine wp_mono (h1.takeCompletion_wp ctrl ident) ?_ fun _ _ => False.elim
      rintro (_ | e) s2 ⟨htook, h2, hident⟩
      · exact hrest (hpolled.trans htook) h2
      · refine ⟨?_, ⟨known1, h2⟩, fun e' he' => (hident e' he').1⟩
        exact hpolled.trans htook
    | false =>
      rw [if_neg Bool.false_ne_true]
      cases herr : r.errorOnAnyEntry with
      | some err => exact ⟨hpolled, ⟨known1, h1⟩, hblocked err herr⟩
      | none => exact hrest hpolled h1

/-- **What `waitFor` does.** -/
theorem Inv.waitFor_wp (h : Inv s known s.history.moved.length) (fuel ident : ℕ) :
    Waits ctrl ident s (waitFor ctrl fuel ident) s := by
  rw [Waits, waitFor, wp_bind]
  refine wp_mono (h.takeCompletion_wp ctrl ident) ?_ fun _ _ => False.elim
  rintro (_ | e) s1 ⟨htook, h1, hident⟩
  · refine wp_mono (h1.waitLoop_wp ident fuel) (fun r s' hr => ⟨?_, hr.2⟩)
      fun err s' herr => ⟨htook.trans herr.1, herr.2⟩
    have hall := htook.trans hr.1
    rw [toList_none, append_nil] at hall
    exact hall
  · exact ⟨htook, ⟨known, h1⟩, fun e' he' => (hident e' he').1⟩
end Nvme
end WasabiOS
