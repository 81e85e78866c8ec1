import WasabiOS.Kernel.Nvme.QueueRuns

/-!
# Kernel/Nvme/Identifiers — the identifiers of the commands in flight

Identifiers are 16 bits of the number of submissions.  They tell the commands in flight apart as long as
no command stays in flight for 65536 submissions (`unique_of_inTime`); cancelled submissions count.
Nothing in the queue prevents that a command does.
-/

open Machinery Prog
namespace WasabiOS
namespace Nvme
open State List Run

/-- The commands that were flushed and whose completion has not been taken out of the queue. -/
def State.inFlight (s : State) : List CommonCommand :=
  s.history.flushed.filter fun c => c.tag ∉ s.history.taken.map CommonCompletionEntry.tag

/-- A controller completes only commands it has consumed, and each of them once. -/
def Rules.CompletesOnce (rules : Rules) : Prop := ∀ d head e, rules d head e = true →
    (∃ c ∈ d.fetched, c.tag = e.tag ∧ c.ident = e.commandIdent) ∧ e.tag ∉ d.posted.map CommonCompletionEntry.tag

/-- **Identifiers are unique**: the one `submit` returns is not that of a command in flight, and what
`waitFor` returns is the completion of the command in flight it was called for. -/
def QueueCall.Unique (ctrl : Controller) : QueueCall → State → Prop
  | .submit command, s => ∀ ident s', Nvme.submit ctrl command s = .ok ident s' → ∀ c ∈ s.inFlight, c.ident ≠ ident
  | .waitFor fuel ident, s => ∀ e s', Nvme.waitFor ctrl fuel ident s = .ok (some e) s' →
    ∀ c ∈ s.inFlight, c.ident = ident → e.tag = c.tag
  | _, _ => True

/-- No command in flight is one of 65536 submissions ago. -/
def QueueCall.InTime : QueueCall → State → Prop
  | .submit _, s => ∀ c ∈ s.inFlight, c.tag + 2 ^ 16 ≠ s.history.submitted
  | _, _ => True

/-- What a controller that completes each command once has posted. -/
structure Answered (d : Device) : Prop where
  once : (d.posted.map CommonCompletionEntry.tag).Nodup
  answers : ∀ e ∈ d.posted, ∃ c ∈ d.fetched, c.tag = e.tag ∧ c.ident = e.commandIdent

/-- **The identifiers are the submissions, counted in 16 bits**, and the commands in flight are of the
last 65536 submissions. -/
structure Numbered (s : State) : Prop where
  next : s.queue.nextCommandIdentifier = s.history.submitted % 2 ^ 16
  ident : ∀ c ∈ s.history.flushed ++ s.history.pending, c.ident = c.tag % 2 ^ 16 ∧ c.tag < s.history.submitted
  increasing : (s.history.flushed ++ s.history.pending).Pairwise fun c c' => c.tag < c'.tag
  recent : ∀ c ∈ s.history.pending, s.history.submitted ≤ c.tag + s.history.pending.length
  window : ∀ c ∈ s.inFlight, s.history.submitted ≤ c.tag + 2 ^ 16
  answered : Answered s.device

variable {rules : Rules} {d d' : Device}

theorem Answered.step (hrules : rules.CompletesOnce) (hstep : Device.Step rules d d') (h : Answered d) :
    Answered d' := by
  cases hstep with
  | writeSlot | ringSubmissionTail | ringCompletionHead => exact ⟨h.once, h.answers⟩
  | @act a ha =>
    cases a with
    | fetch =>
      refine ⟨h.once, fun e he => ?_⟩
      obtain ⟨c, hc, hsame⟩ := h.answers e he
      exact ⟨c, mem_append_left _ hc, hsame⟩
    | post head e =>
      obtain ⟨hfetched, hnew⟩ := hrules d head e ha.2.2.2
      have hposted : (d.post head e).posted = d.posted ++ [d.stamp head e] := rfl
      refine ⟨?_, fun e' he' => ?_⟩
      · rw [Device.perform, hposted, map_append]
        refine nodup_append.2 ⟨h.once, pairwise_singleton _ _, fun t ht t' ht' heq => hnew ?_⟩
        have htag : t' = e.tag := mem_singleton.1 ht'
        rw [← htag, ← heq]
        exact ht
      · rcases mem_append.1 he' with he' | he'
        · exact h.answers e' he'
        · cases mem_singleton.1 he'
          exact hfetched

theorem Answered.leads (hrules : rules.CompletesOnce) (hleads : Device.Leads rules d d') (h : Answered d) :
    Answered d' :=
  hleads.preserves (fun _ _ => Answered.step hrules) h

variable {s s' : State} {known freed : ℕ} {c c' : CommonCommand} {e e' : CommonCompletionEntry}

theorem State.mem_inFlight :
    c ∈ s.inFlight ↔ c ∈ s.history.flushed ∧ c.tag ∉ s.history.taken.map CommonCompletionEntry.tag := by
  rw [inFlight, mem_filter, decide_eq_true_eq]

/-- **Of the last 65536 submissions each has its own identifier.** -/
theorem Numbered.tag_inj (h : Numbered s) (hc : c ∈ s.inFlight) (hc' : c' ∈ s.inFlight)
    (hident : c.ident = c'.ident) : c.tag = c'.tag := by
  obtain ⟨heq, hlt⟩ := h.ident c (mem_append_left _ (mem_inFlight.1 hc).1)
  obtain ⟨heq', hlt'⟩ := h.ident c' (mem_append_left _ (mem_inFlight.1 hc').1)
  have hwindow := h.window c hc
  have hwindow' := h.window c' hc'
  rw [heq, heq'] at hident
  omega

/-- An entry that has been posted and not taken out is that of a command in flight. -/
theorem Numbered.exists_inFlight (h : Numbered s) (hinv : Inv s known freed) (he : e ∈ s.device.posted)
    (hnew : e.tag ∉ s.history.taken.map CommonCompletionEntry.tag) :
    ∃ c ∈ s.inFlight, c.tag = e.tag ∧ c.ident = e.commandIdent := by
  obtain ⟨c, hc, htag, hident⟩ := h.answered.answers e he
  refine ⟨c, mem_inFlight.2 ⟨hinv.submission.fetched.subset hc, ?_⟩, htag, hident⟩
  rw [htag]
  exact hnew

/-- The entries that were moved are of different commands. -/
theorem Numbered.nodup_kept (h : Numbered s) (hinv : Inv s known freed) :
    ((s.queue.completions ++ s.history.taken).map CommonCompletionEntry.tag).Nodup := by
  have hmoved : (s.history.moved.map CommonCompletionEntry.tag).Nodup :=
    h.answered.once.sublist (hinv.completion.moved.sublist.map _)
  exact (hinv.completion.kept.map _).nodup_iff.2 hmoved

/-- **Polling is never blocked**: the entries in the list and the next one are of different commands in
flight. -/
theorem Numbered.not_blocked (h : Numbered s) (hinv : Inv s known freed) {err : PollCompletionError} :
    ¬ s.Blocked err := by
  rintro ⟨e, he, -, e', he', hsame⟩
  obtain ⟨rest, hrest⟩ := hinv.completion.moved
  obtain ⟨hlt, hget⟩ := List.getElem?_eq_some_iff.1 he
  have hmem : e ∈ s.device.posted := hget ▸ List.getElem_mem hlt
  have hmoved : ∀ e'' ∈ s.history.moved, e''.tag ≠ e.tag := by
    have hrest' : e ∈ rest := by
      rw [← hrest, getElem?_append_right le_rfl] at he
      exact mem_of_getElem? he
    have honce := h.answered.once
    rw [← hrest, map_append] at honce
    intro e'' he'' htag
    exact (nodup_append.1 honce).2.2 _ (mem_map_of_mem he'') _ (mem_map_of_mem hrest') htag
  have hkept : ∀ e'' ∈ s.queue.completions ++ s.history.taken, e''.tag ≠ e.tag :=
    fun e'' he'' => hmoved e'' (hinv.completion.kept.mem_iff.1 he'')
  obtain ⟨c, hc, htag, hident⟩ : ∃ c ∈ s.inFlight, c.tag = e.tag ∧ c.ident = e.commandIdent := by
    refine h.exists_inFlight hinv hmem fun htaken => ?_
    obtain ⟨e'', he'', htag⟩ := mem_map.1 htaken
    exact hkept e'' (mem_append_right _ he'') htag
  obtain ⟨c', hc', htag', hident'⟩ : ∃ c ∈ s.inFlight, c.tag = e'.tag ∧ c.ident = e'.commandIdent := by
    have hposted : e' ∈ s.device.posted :=
      hinv.completion.moved.subset (hinv.completion.kept.mem_iff.1 (mem_append_left _ he'))
    refine h.exists_inFlight hinv hposted ?_
    have hnodup := h.nodup_kept hinv
    rw [map_append] at hnodup
    exact fun htaken => (nodup_append.1 hnodup).2.2 _ (mem_map_of_mem he') _ htaken rfl
  have hsameTag := h.tag_inj hc hc' (hident.trans (hsame.symm.trans hident'.symm))
  exact hkept e' (mem_append_left _ he') (htag'.symm.trans (hsameTag.symm.trans htag))

/-- Fewer commands are in flight when entries have been taken out. -/
theorem Numbered.took (hrules : rules.CompletesOnce) {es : List CommonCompletionEntry} (h : Numbered s)
    (htook : Took rules es s s') : Numbered s' := by
  refine ⟨?_, ?_, ?_, ?_, fun c hc => ?_, h.answered.leads hrules htook.device⟩
  · rw [htook.next, htook.submitted]
    exact h.next
  · rw [htook.flushed, htook.pending, htook.submitted]
    exact h.ident
  · rw [htook.flushed, htook.pending]
    exact h.increasing
  · rw [htook.pending, htook.submitted]
    exact h.recent
  · rw [htook.submitted]
    obtain ⟨hflushed, htaken⟩ := mem_inFlight.1 hc
    rw [htook.flushed] at hflushed
    rw [htook.taken, map_append] at htaken
    exact h.window c (mem_inFlight.2 ⟨hflushed, fun hmem => htaken (mem_append_right _ hmem)⟩)

theorem Inv.taken_subset (hinv : Inv s known freed) (he : e ∈ s.history.taken) : e ∈ s.device.posted :=
  hinv.completion.moved.subset (hinv.completion.kept.mem_iff.1 (mem_append_right _ he))

section
variable (hrules : rules.CompletesOnce)
include hrules

/-- **An entry that is taken out is that of the command in flight with its identifier.** -/
theorem Numbered.tag_taken (h : Numbered s) (hinv' : Inv s' known freed)
    (htook : Took rules [e] s s') (hc : c ∈ s.inFlight) (hident : c.ident = e.commandIdent) : e.tag = c.tag := by
  have h' := h.took hrules htook
  have htaken : s'.history.taken = e :: s.history.taken := htook.taken
  have hnodup := h'.nodup_kept hinv'
  rw [htaken, map_append] at hnodup
  have hnew : e.tag ∉ s.history.taken.map CommonCompletionEntry.tag := (nodup_cons.1 (nodup_append.1 hnodup).2.1).1
  have hmem : e ∈ s'.device.posted := hinv'.taken_subset (htaken ▸ mem_cons_self)
  obtain ⟨c', hc', htag', hident'⟩ := h'.answered.answers e hmem
  have hflight : c' ∈ s.inFlight := by
    refine mem_inFlight.2 ⟨htook.flushed ▸ hinv'.submission.fetched.subset hc', ?_⟩
    rw [htag']
    exact hnew
  rw [← htag']
  exact h.tag_inj hflight hc (hident'.trans hident.symm)

/-- A submission takes the next number. -/
theorem Numbered.wrote (h : Numbered s) {command : CommonCommand}
    (htime : ∀ c ∈ s.inFlight, c.tag + 2 ^ 16 ≠ s.history.submitted)
    (hwrote : Wrote rules (command.withIdent s.queue.nextCommandIdentifier s.history.submitted) s s') :
    Numbered s' := by
  have hflight : s'.inFlight = s.inFlight := by rw [inFlight, inFlight, hwrote.flushed, hwrote.taken]
  refine ⟨?_, fun c hc => ?_, ?_, fun c hc => ?_, fun c hc => ?_, h.answered.leads hrules hwrote.device⟩
  · rw [hwrote.next, hwrote.submitted, h.next, Nat.mod_add_mod]
  · rw [hwrote.submitted]
    rw [hwrote.flushed, hwrote.pending, ← append_assoc] at hc
    rcases mem_append.1 hc with hc | hc
    · obtain ⟨hident, hlt⟩ := h.ident c hc
      exact ⟨hident, hlt.trans (lt_add_one _)⟩
    · cases mem_singleton.1 hc
      exact ⟨h.next, lt_add_one _⟩
  · rw [hwrote.flushed, hwrote.pending, ← append_assoc]
    refine pairwise_append.2 ⟨h.increasing, pairwise_singleton _ _, fun c hc c' hc' => ?_⟩
    cases mem_singleton.1 hc'
    exact (h.ident c hc).2
  · rw [hwrote.submitted, hwrote.pending, length_append]
    rw [hwrote.pending] at hc
    rcases mem_append.1 hc with hc | hc
    · exact Nat.succ_le_succ (h.recent c hc)
    · cases mem_singleton.1 hc
      exact Nat.add_le_add_left le_add_self _
  · rw [hflight] at hc
    rw [hwrote.submitted]
    exact Nat.succ_le_of_lt (lt_of_le_of_ne (h.window c hc) (htime c hc).symm)

/-- The flushed commands are recent ones: a queue has 64 slots. -/
theorem Numbered.told (hinv : Inv s known freed) (h : Numbered s) (htold : Told rules s s') : Numbered s' := by
  refine ⟨?_, ?_, ?_, ?_, fun c hc => ?_, h.answered.leads hrules htold.device⟩
  · rw [htold.next, htold.submitted]
    exact h.next
  · rw [htold.flushed, htold.pending, htold.submitted, append_nil]
    exact h.ident
  · rw [htold.flushed, htold.pending, append_nil]
    exact h.increasing
  · rw [htold.pending]
    exact forall_mem_nil _
  · rw [htold.submitted]
    obtain ⟨hflushed, htaken⟩ := mem_inFlight.1 hc
    rw [htold.flushed] at hflushed
    rw [htold.taken] at htaken
    rcases mem_append.1 hflushed with hmem | hmem
    · exact h.window c (mem_inFlight.2 ⟨hmem, htaken⟩)
    · have hrecent := h.recent c hmem
      have hroom := hinv.submission.room
      have hsize := hinv.submission.le_64
      obtain ⟨hknown, -⟩ := hinv.known_le
      rw [length_append] at hroom
      omega
end

theorem Numbered.cancel (h : Numbered s) : Numbered s.cancel := by
  have hnil : s.cancel.history.flushed ++ s.cancel.history.pending = s.history.flushed := append_nil _
  refine ⟨h.next, fun c hc => h.ident c ?_, ?_, forall_mem_nil _, h.window, h.answered⟩
  · rw [hnil] at hc
    exact mem_append_left _ hc
  · rw [hnil]
    exact h.increasing.sublist (sublist_append_left _ _)

theorem Numbered.attempt (hrules : rules.CompletesOnce) (h : Numbered s) (actions : List Action) :
    Numbered (s.attempt rules actions) := by
  exact { h with answered := Device.foldl_act (fun d a ha => Answered.step hrules (.act ha)) actions h.answered }

variable {ctrl : Controller} {q : CommandQueue} {id submissionSize completionSize : ℕ}

theorem Numbered.start (hq : CommandQueue.allocate id submissionSize completionSize = .ok q) :
    Numbered (State.start q) := by
  obtain ⟨-, -, rfl⟩ := allocate_eq_ok hq
  exact ⟨rfl, forall_mem_nil _, List.Pairwise.nil, forall_mem_nil _, forall_mem_nil _, nodup_nil, forall_mem_nil _⟩

/-- **Every call keeps the numbers.** -/
theorem Numbered.step (hrules : ctrl.rules.CompletesOnce) (hinv : Inv s known s.history.moved.length)
    (h : Numbered s) (call : QueueCall)
    (htime : call.InTime s) (hs : s' ∈ call.step ctrl s) : Numbered s' := by
  cases call with
  | submit command =>
    refine wp_state (wp_mono (hinv.submit_wp command) ?_ ?_) hs
    · rintro ident s1 ⟨-, hwrote, -⟩
      exact h.wrote hrules htime hwrote
    · rintro err s1 ⟨hpolled, -⟩
      exact h.took hrules hpolled
  | cancelSubmissions =>
    cases hs
    exact h.cancel
  | flush =>
    refine wp_state (wp_mono hinv.flush_wp ?_ fun _ _ => False.elim) hs
    exact fun _ _ hr => h.told hrules hinv hr.1
  | pollCompletions =>
    refine wp_state (wp_mono hinv.pollCompletions_wp ?_ fun _ _ => False.elim) hs
    exact fun _ _ hr => h.took hrules hr.1
  | waitFor fuel ident =>
    refine wp_state (wp_mono (hinv.waitFor_wp fuel ident) ?_ ?_) hs
    · exact fun _ _ hr => h.took hrules hr.1
    · exact fun _ _ hr => h.took hrules hr.1
  | drainCompletions =>
    cases hs
    have htook : Took ctrl.rules s.queue.completions s (s.take [] s.queue.completions) :=
      ⟨rfl, rfl, rfl, rfl, rfl, rfl, rfl, .refl, prefix_rfl⟩
    exact h.took hrules htook
  | controller actions =>
    cases hs
    exact h.attempt hrules actions

/-- **In time, identifiers are unique.** -/
theorem Numbered.unique (hrules : ctrl.rules.CompletesOnce) (hinv : Inv s known s.history.moved.length) (h : Numbered s)
    (call : QueueCall) (htime : call.InTime s) : call.Unique ctrl s := by
  cases call with
  | submit command =>
    intro ident s1 hrun c hc heq
    obtain ⟨rfl, -⟩ := (wp_of_ok hrun).1 (hinv.submit_wp command)
    obtain ⟨hident, hlt⟩ := h.ident c (mem_append_left _ (mem_inFlight.1 hc).1)
    have hwindow := h.window c hc
    have hne := htime c hc
    rw [hident, h.next] at heq
    omega
  | waitFor fuel ident =>
    intro e s1 hrun c hc hident
    obtain ⟨htook, ⟨known1, hinv1⟩, hcalled⟩ := (wp_of_ok hrun).1 (hinv.waitFor_wp fuel ident)
    exact h.tag_taken hrules hinv1 htook hc (hident.trans (hcalled e rfl).symm)
  | _ => trivial

/-- **Identifiers are unique in every run in which no command stays in flight for 65536 submissions.** -/
theorem unique_of_inTime (hq : CommandQueue.allocate id submissionSize completionSize = .ok q)
    (hrules : ctrl.rules.CompletesOnce) (calls : List QueueCall)
    (htime : Along (QueueCall.step ctrl) QueueCall.InTime calls (State.start q)) :
    Along (QueueCall.step ctrl) (QueueCall.Unique ctrl) calls (State.start q) := by
  refine along_of_invariant (I := fun s => Resting s ∧ Numbered s) ?_ ⟨⟨0, Inv.start hq⟩, Numbered.start hq⟩ htime
  rintro call s ⟨⟨known, hinv⟩, h⟩ htime
  refine ⟨h.unique hrules hinv call htime, fun s' hs => ⟨?_, h.step hrules hinv call htime hs⟩⟩
  obtain ⟨s'', hs'', hinv'⟩ := hinv.step ctrl call
  exact Option.mem_unique hs'' hs ▸ hinv'

/-- A controller that completes each command it has consumed once, and attempts nothing by itself. -/
def onceController : Controller where
  rules d _ e := decide ((∃ c ∈ d.fetched, c.tag = e.tag ∧ c.ident = e.commandIdent) ∧
    e.tag ∉ d.posted.map CommonCompletionEntry.tag)
  attempts _ := []

theorem unique_oneCommand : Along (QueueCall.step onceController) (QueueCall.Unique onceController) oneCommand
      (State.start smallQueue) := by
  refine unique_of_inTime smallQueue_allocate (fun _ _ _ h => of_decide_eq_true h) oneCommand ?_
  exact ⟨forall_mem_nil _, fun _ _ => ⟨trivial, fun _ _ => ⟨trivial, fun _ _ =>
    ⟨trivial, fun _ _ => ⟨trivial, fun _ _ => trivial⟩⟩⟩⟩⟩

/-! ### A command that takes long -/

/-- Three slots for commands. -/
def threeSlots : CommandQueue := ⟨1, 3, 0, 0, .zero 3, 2, .zero 2, true, [], 0⟩

theorem threeSlots_allocate : CommandQueue.allocate 1 3 2 = .ok threeSlots := rfl

/-- `n` commands are submitted and cancelled, and one more is submitted. -/
def cancelled : ℕ → List QueueCall
  | 0 => [.submit default]
  | n + 1 => .submit default :: .cancelSubmissions :: cancelled n

/-- The first command is in flight and `n` others have been submitted. -/
structure Delayed (n : ℕ) (s : State) : Prop where
  queue : s.queue = ⟨1, 3, 1, 0, ⟨1, 3⟩, 2, .zero 2, true, [], (n + 1) % 2 ^ 16⟩
  flushed : s.history.flushed = [CommonCommand.withIdent 0 0 default]
  taken : s.history.taken = []

theorem Delayed.submit (ctrl : Controller) {n : ℕ} (h : Delayed n s) :
    ∃ s', Nvme.submit ctrl default s = .ok ((n + 1) % 2 ^ 16) s' ∧ Delayed (n + 1) s'.cancel := by
  obtain ⟨queue, device, clock, past⟩ := s
  obtain ⟨rfl, hflushed, htaken⟩ := h
  refine ⟨_, rfl, ?_, hflushed, htaken⟩
  have hnext : ((n + 1) % 2 ^ 16 + 1) % 2 ^ 16 = (n + 1 + 1) % 2 ^ 16 := Nat.mod_add_mod ..
  rw [← hnext]
  rfl

/-- The identifier of the first command comes round again. -/
theorem Delayed.not_unique {n m : ℕ} (h : Delayed m s) (hlap : (m + n + 1) % 2 ^ 16 = 0) :
    ¬ Along (QueueCall.step ctrl) (QueueCall.Unique ctrl) (cancelled n) s := by
  induction n generalizing m s with
  | zero =>
    rintro ⟨hunique, -⟩
    obtain ⟨s', hrun, -⟩ := h.submit ctrl
    refine hunique _ s' hrun (CommonCommand.withIdent 0 0 default) ?_ hlap.symm
    rw [mem_inFlight, h.flushed, h.taken]
    exact ⟨mem_singleton_self _, not_mem_nil⟩
  | succ n ih =>
    rintro ⟨-, hrest⟩
    obtain ⟨s', hrun, hdelayed⟩ := h.submit ctrl
    have hstep : s' ∈ QueueCall.step ctrl (.submit default) s := by
      rw [QueueCall.step, hrun]
      rfl
    obtain ⟨-, hrest⟩ := hrest s' hstep
    refine ih hdelayed ?_ (hrest s'.cancel rfl)
    rw [← hlap]
    congr 1
    omega

/-- One command in flight, and 65536 submissions after it. -/
def longDelay : List QueueCall := .submit default :: .flush :: cancelled 65535

theorem not_unique_longDelay : ¬ Along (QueueCall.step onceController) (QueueCall.Unique onceController) longDelay
      (State.start threeSlots) := by
  rintro ⟨-, hrest⟩
  obtain ⟨-, hrest⟩ := hrest _ rfl
  refine Delayed.not_unique (m := 0) ?_ ?_ (hrest _ rfl)
  · exact ⟨rfl, rfl, rfl⟩
  · rfl
end Nvme
end WasabiOS
