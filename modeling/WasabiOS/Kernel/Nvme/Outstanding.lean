import WasabiOS.Kernel.Nvme.Identifiers
import Mathlib.Data.List.Perm.Subperm

/-!
# Kernel/Nvme/Outstanding — the commands nobody has waited for

A caller that submits, flushes and waits for what it has submitted is served well: if nothing is
outstanding there is room for a whole ring of commands but one, and each wait returns the completion of
its command, with the status the controller gave it.
-/

open Machinery Prog
namespace WasabiOS
namespace Nvme
open List

/-- **How a controller answers**: each command once and with the status it is assigned, and it reports all
the commands it has consumed. -/
structure Rules.Answers (rules : Rules) (status : ℕ → CommandStatusCode) : Prop where
  once : rules.CompletesOnce
  head : ∀ d head e, rules d head e = true → head = d.fetched.length
  status : ∀ d head e, rules d head e = true → e.status = status e.tag

/-- What such a controller has posted. -/
structure Settled (status : ℕ → CommandStatusCode) (d : Device) : Prop where
  answered : Answered d
  reported : d.posted.length ≤ d.reported
  status : ∀ e ∈ d.posted, e.status = status e.tag

/-- **The commands nobody has waited for** are those with the numbers `tags`. -/
structure Awaits (status : ℕ → CommandStatusCode) (s : State) (tags : List ℕ) : Prop where
  inv : ∃ known, Inv s known s.history.moved.length
  numbered : Numbered s
  settled : Settled status s.device
  claimed : ∀ c ∈ s.history.flushed, c.tag ∈ s.history.taken.map CommonCompletionEntry.tag ∨ c.tag ∈ tags
  flushed : ∀ t ∈ tags, ∃ c ∈ s.history.flushed, c.tag = t
  unclaimed : ∀ t ∈ tags, t ∉ s.history.taken.map CommonCompletionEntry.tag

variable {rules : Rules} {status : ℕ → CommandStatusCode} {d d' : Device}

theorem Answered.length_le (h : Answered d) : d.posted.length ≤ d.fetched.length := by
  have hsubset : d.posted.map CommonCompletionEntry.tag ⊆ d.fetched.map CommonCommand.tag := by
    intro t ht
    obtain ⟨e, he, rfl⟩ := mem_map.1 ht
    obtain ⟨c, hc, htag, -⟩ := h.answers e he
    exact mem_map.2 ⟨c, hc, htag⟩
  have hle := (subperm_of_subset h.once hsubset).length_le
  rw [length_map, length_map] at hle
  exact hle

theorem Settled.step (hrules : rules.Answers status) (hstep : Device.Step rules d d') (h : Settled status d) :
    Settled status d' := by
  have hanswered := h.answered.step hrules.once hstep
  cases hstep with
  | writeSlot | ringSubmissionTail | ringCompletionHead => exact ⟨hanswered, h.reported, h.status⟩
  | @act a ha =>
    cases a with
    | fetch => exact ⟨hanswered, h.reported, h.status⟩
    | post head e =>
      refine ⟨hanswered, ?_, fun e' he' => ?_⟩
      · exact hanswered.length_le.trans (hrules.head d head e ha.2.2.2).ge
      · rcases mem_append.1 he' with he' | he'
        · exact h.status e' he'
        · cases mem_singleton.1 he'
          exact hrules.status d head e ha.2.2.2

theorem Settled.leads (hrules : rules.Answers status) (hleads : Device.Leads rules d d') (h : Settled status d) :
    Settled status d' :=
  hleads.preserves (fun _ _ => Settled.step hrules) h

variable {ctrl : Controller} {s s' : State} {tags : List ℕ} {known t : ℕ} {ε : Type}

theorem Awaits.nodup_flushed (h : Awaits status s tags) : (s.history.flushed.map CommonCommand.tag).Nodup := by
  have hflushed := h.numbered.increasing.sublist (sublist_append_left _ _)
  exact (pairwise_map.2 hflushed).imp ne_of_lt

/-- **When nothing is outstanding, everything that was flushed is known to be consumed.** -/
theorem Awaits.known_eq (h : Awaits status s []) (hinv : Inv s known s.history.moved.length) :
    known = s.history.flushed.length := by
  have hsubset : s.history.flushed.map CommonCommand.tag ⊆ s.history.taken.map CommonCompletionEntry.tag := by
    intro t ht
    obtain ⟨c, hc, rfl⟩ := mem_map.1 ht
    exact (h.claimed c hc).resolve_right not_mem_nil
  have htaken := (subperm_of_subset h.nodup_flushed hsubset).length_le
  have hkept := hinv.completion.kept.length_eq
  have hmoved := hinv.completion.moved.length_le
  have hreported := h.settled.reported
  have hfetched := hinv.submission.reported_le
  have hflushed := hinv.submission.fetched.length_le
  rw [length_map, length_map] at htaken
  rw [length_append] at hkept
  rw [hinv.known_eq (by omega)]
  omega

/-- The queue is full when the batch fills the ring but for one slot. -/
theorem Awaits.isFullForSubmission (h : Awaits status s []) : s.queue.isFullForSubmission =
    .ok (decide (s.history.pending.length + 1 = s.queue.submissionQueueSize)) := by
  obtain ⟨known, hinv⟩ := h.inv
  have hknown := h.known_eq hinv
  rw [hinv.isFullForSubmission]
  refine congrArg Except.ok (decide_eq_decide.2 ?_)
  rw [length_append]
  omega

/-- No command in flight is old: none is in flight. -/
theorem Awaits.inFlight_eq_nil (h : Awaits status s []) : s.inFlight = [] := by
  refine eq_nil_iff_forall_not_mem.2 fun c hc => ?_
  obtain ⟨hflushed, htaken⟩ := State.mem_inFlight.1 hc
  exact htaken ((h.claimed c hflushed).resolve_right not_mem_nil)

section
variable (hrules : ctrl.rules.Answers status)
include hrules

/-- **Submitting** when nothing is outstanding and there is room. -/
theorem Awaits.submit_wp (h : Awaits status s [])
    (hroom : s.history.pending.length + 1 < s.queue.submissionQueueSize) (command : CommonCommand) :
    (submit ctrl command).wp (fun ident s' => ident = s.history.submitted % 2 ^ 16 ∧
        Wrote ctrl.rules (command.withIdent ident s.history.submitted) s s' ∧ Awaits status s' [])
      (fun _ _ => False) s := by
  obtain ⟨known, hinv⟩ := h.inv
  refine wp_mono (hinv.submit_wp command) ?_ ?_
  · rintro ident s' ⟨rfl, hwrote, hinv'⟩
    have hnone : ∀ c ∈ s.inFlight, c.tag + 2 ^ 16 ≠ s.history.submitted := by
      rw [h.inFlight_eq_nil]
      exact forall_mem_nil _
    refine ⟨h.numbered.next, hwrote, hinv', h.numbered.wrote hrules.once hnone hwrote,
      h.settled.leads hrules hwrote.device, ?_, forall_mem_nil _,
      forall_mem_nil _⟩
    rw [hwrote.flushed, hwrote.taken]
    exact h.claimed
  · rintro err s' ⟨-, -, hfull⟩
    rw [h.isFullForSubmission] at hfull
    exact hroom.ne (of_decide_eq_true (Except.ok.inj hfull))

/-- **Flushing** makes what was pending outstanding. -/
theorem Awaits.flush_wp (h : Awaits status s []) : (flush ctrl : Prog State ε Unit).wp
      (fun _ s' => Told ctrl.rules s s' ∧ Awaits status s' (s.history.pending.map CommonCommand.tag))
      (fun _ _ => False) s := by
  obtain ⟨known, hinv⟩ := h.inv
  refine wp_mono hinv.flush_wp ?_ fun _ _ => False.elim
  rintro - s' ⟨htold, hinv'⟩
  refine ⟨htold, ⟨known, hinv'⟩, h.numbered.told hrules.once hinv htold, h.settled.leads hrules htold.device,
    fun c hc => ?_, fun t ht => ?_, fun t ht => ?_⟩
  · rw [htold.flushed] at hc
    rw [htold.taken]
    rcases mem_append.1 hc with hc | hc
    · exact .inl ((h.claimed c hc).resolve_right not_mem_nil)
    · exact .inr (mem_map_of_mem hc)
  · obtain ⟨c, hc, rfl⟩ := mem_map.1 ht
    exact ⟨c, htold.flushed ▸ mem_append_right _ hc, rfl⟩
  · -- what was taken out is of commands that were flushed before
    rw [htold.taken]
    intro htaken
    obtain ⟨c, hc, rfl⟩ := mem_map.1 ht
    obtain ⟨e, he, htag⟩ := mem_map.1 htaken
    obtain ⟨c', hc', htag', -⟩ := h.numbered.answered.answers e (hinv.taken_subset he)
    have hlt := (pairwise_append.1 h.numbered.increasing).2.2 c' (hinv.submission.fetched.subset hc') c hc
    exact hlt.ne (htag'.trans htag)

/-- **Waiting** for an outstanding command. -/
theorem Awaits.waitFor_wp (h : Awaits status s (t :: tags)) (hnodup : (t :: tags).Nodup) (fuel : ℕ) :
    (waitFor ctrl fuel (t % 2 ^ 16)).wp (fun r s' => Took ctrl.rules r.toList s s' ∧
        ∀ e, r = some e → e.status = status t ∧ t ∈ s'.device.posted.map CommonCompletionEntry.tag ∧
          Awaits status s' tags)
      (fun _ _ => False) s := by
  obtain ⟨known, hinv⟩ := h.inv
  refine wp_mono (hinv.waitFor_wp fuel (t % 2 ^ 16)) ?_ ?_
  · rintro r s' ⟨htook, ⟨known', hinv'⟩, hident⟩
    refine ⟨htook, ?_⟩
    rintro e rfl
    obtain ⟨c, hc, htag⟩ := h.flushed t mem_cons_self
    have hflight : c ∈ s.inFlight := State.mem_inFlight.2 ⟨hc, htag ▸ h.unclaimed t mem_cons_self⟩
    have hcident : c.ident = e.commandIdent := by rw [hident e rfl, (h.numbered.ident c (mem_append_left _ hc)).1, htag]
    have hetag : e.tag = t := (h.numbered.tag_taken hrules.once hinv' htook hflight hcident).trans htag
    have htaken : s'.history.taken = e :: s.history.taken := htook.taken
    have hposted : e ∈ s'.device.posted := hinv'.taken_subset (htaken ▸ mem_cons_self)
    have hsettled := h.settled.leads hrules htook.device
    refine ⟨hetag ▸ hsettled.status e hposted, hetag ▸ mem_map_of_mem hposted, ⟨known', hinv'⟩,
      h.numbered.took hrules.once htook, hsettled, fun c' hc' => ?_, fun t' ht' => ?_, fun t' ht' => ?_⟩
    · rw [htook.flushed] at hc'
      rw [htaken, map_cons, hetag]
      rcases h.claimed c' hc' with hold | hmem
      · exact .inl (mem_cons_of_mem _ hold)
      · rcases mem_cons.1 hmem with heq | hmem
        · exact .inl (heq ▸ mem_cons_self)
        · exact .inr hmem
    · rw [htook.flushed]
      exact h.flushed t' (mem_cons_of_mem _ ht')
    · rw [htaken, map_cons, hetag]
      intro hmem
      rcases mem_cons.1 hmem with rfl | hmem
      · exact (nodup_cons.1 hnodup).1 ht'
      · exact h.unclaimed t' (mem_cons_of_mem _ ht') hmem
  · rintro err s' ⟨hpolled, ⟨known', hinv'⟩, hblocked⟩
    exact (h.numbered.took hrules.once hpolled).not_blocked hinv' hblocked
end
end Nvme
end WasabiOS
