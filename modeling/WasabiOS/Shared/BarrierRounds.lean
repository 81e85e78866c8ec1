import WasabiOS.Machinery.Parties
import WasabiOS.Shared.Barrier

/-!
# Shared/BarrierRounds — rounds of a barrier

A round has two phases.  While it **gathers**, the participants come in one by one; `enter_count` counts
them and `passing_count` is the target as soon as there is a leader.  Once all are in, the round is
**open**: they leave one by one, `passing_count` counts those that have not, and the leader goes last.
Whoever comes back early finds `passing_count` strictly between 0 and the target and waits at the gate.

`Inv` says that the barrier is in one of the two phases of some round.  It is kept by every access of
`enter`, and of `enter_with_timeout` too as long as no leader gives up (`Inv.step`).
-/

open Machinery
namespace WasabiOS
open List Bool
namespace Barrier
variable {n : ℕ} {leader : Bool} {current : ℕ}

/-! ## Where a participant can be -/

namespace Pc

/-- Not in the round yet. -/
def Before : Pc → Prop
  | outside | gate | elect => True
  | _ => False

/-- In a round that gathers. -/
def Early (n : ℕ) : Pc → Prop
  | outside | gate | elect | arrive _ | reload _ => True
  | spin _ current => current < n
  | _ => False

/-- Counted by `enter_count`. -/
def Counted : Pc → Prop
  | spin _ _ | reload _ | drain | resetEnter | leave => True
  | _ => False

/-- Elected. -/
def Elected : Pc → Prop
  | arrive leader | spin leader _ | reload leader => leader = true
  | drain | resetEnter | resetPassing => True
  | _ => False

/-- The leader of an open round. -/
def Leading (n : ℕ) : Pc → Prop
  | spin leader current => leader = true ∧ current < n
  | reload leader => leader = true
  | drain | resetEnter | resetPassing => True
  | _ => False

/-- In an open round, and not its leader. -/
def Staying (n : ℕ) : Pc → Prop
  | spin leader current => leader = false ∧ current < n
  | reload leader => leader = false
  | leave => True
  | _ => False

/-- Left the open round. -/
def Away : Pc → Prop
  | outside | gate => True
  | _ => False

/-- The leader is alone. -/
def Resetting : Pc → Prop
  | resetEnter | resetPassing => True
  | _ => False

/-- In the second loop. -/
def Waiting : Pc → Prop
  | spin _ _ | reload _ => True
  | _ => False

/-- In the second loop, and elected or not. -/
def WaitsAs (b : Bool) : Pc → Prop
  | spin leader _ | reload leader => leader = b
  | _ => False

instance : DecidablePred Counted := fun pc => by cases pc <;> unfold Counted <;> infer_instance

instance : DecidablePred Elected := fun pc => by cases pc <;> unfold Elected <;> infer_instance
end Pc

/-- The rounds a participant has passed. -/
def Local.rounds (l : Local) : ℕ := l.passed.length

theorem Local.passed_test {l : Local} {target : ℕ} : (l.test target leader current).passed = l.passed := by
  rw [Local.test]
  split <;> rfl

/-- The participants that `enter_count` counts. -/
def State.inside (s : State n) : ℕ := tally (fun l : Local => l.pc.Counted) s.locals

/-- The participants that are elected. -/
def State.leaders (s : State n) : ℕ := tally (fun l : Local => l.pc.Elected) s.locals

/-- The participants that have not passed more than `r` rounds. -/
def State.remaining (s : State n) (r : ℕ) : ℕ := tally (fun l : Local => l.rounds = r) s.locals

/-! ## The invariant -/

/-- Round `r` gathers. -/
structure Gather (r : ℕ) (s : State n) : Prop where
  rounds : ∀ i, (s.locals i).rounds = r
  pcs : ∀ i, (s.locals i).pc.Early n
  enterCount : s.counters.enterCount = s.inside
  passingCount : (s.counters.passingCount = 0 ∧ ∀ i, (s.locals i).pc.Before) ∨
    (s.counters.passingCount = n ∧ s.leaders = 1)

/-- A participant of the open round `r` that is not its leader. -/
def Follows (n r : ℕ) (l : Local) : Prop :=
  (l.rounds = r ∧ l.pc.Staying n) ∨ (l.rounds = r + 1 ∧ l.passed[r]? = some false ∧ l.pc.Away)

/-- Round `r` is open, and `leader` leads it. -/
structure Open (r : ℕ) (leader : Fin n) (s : State n) : Prop where
  leader_rounds : (s.locals leader).rounds = r
  leader_pc : (s.locals leader).pc.Leading n
  follows : ∀ i, i ≠ leader → Follows n r (s.locals i)
  enterCount : s.counters.enterCount = if (s.locals leader).pc = .resetPassing then 0 else n
  passingCount : s.counters.passingCount = s.remaining r
  alone : (s.locals leader).pc.Resetting → s.counters.passingCount = 1

/-- Of every round before `r`, one participant was the leader and all others were not. -/
def History (r : ℕ) (s : State n) : Prop := ∀ k < r, ∃ i, (s.locals i).passed[k]? = some true ∧
    ∀ j, j ≠ i → (s.locals j).passed[k]? = some false

/-- **The invariant of the barrier.** -/
def Inv (s : State n) : Prop := ∃ r, History r s ∧ (Gather r s ∨ ∃ leader, Open r leader s)

/-! ## Steps -/

/-- No leader gives up, and nobody takes one from a count of zero. -/
def Action.Quiet : Action n → State n → Prop
  | call _ _, _ => True
  | access i late, s => (s.locals i).isLate late = true →
    match (s.locals i).pc with
    | .spin leader current => current ≠ 0 ∧ (leader = true → s.counters.enterCount ≠ current)
    | .drain => s.counters.passingCount = 1
    | _ => True

variable {r : ℕ} {s : State n} {i : Fin n} {c : Counters} {l : Local} {b late : Bool}

/-- The passed rounds of nobody change. -/
theorem History.congr {s' : State n} (h : History r s)
    (heq : ∀ j, (s'.locals j).passed = (s.locals j).passed) : History r s' := by
  intro k hk
  obtain ⟨i, hi, hothers⟩ := h k hk
  exact ⟨i, (heq i).symm ▸ hi, fun j hj => (heq j).symm ▸ hothers j hj⟩

/-- A participant returns from a round that is over. -/
theorem History.return_ (h : History r s) (hr : r ≤ (s.locals i).rounds) (leader : Bool) :
    History r (s.set i c ((s.locals i).return_ leader)) := by
  intro k hk
  have hkeep : ∀ j, ((s.set i c ((s.locals i).return_ leader)).locals j).passed[k]? = (s.locals j).passed[k]? := by
    intro j
    by_cases hj : j = i
    · subst hj
      rw [State.set_self]
      exact getElem?_append_left (hk.trans_le hr)
    · rw [State.set_of_ne s _ _ hj]
  obtain ⟨i', hi', hothers⟩ := h k hk
  exact ⟨i', (hkeep i').trans hi', fun j hj => (hkeep j).trans (hothers j hj)⟩

theorem inside_set_of_iff (h : l.pc.Counted ↔ (s.locals i).pc.Counted) :
    (s.set i c l).inside = s.inside := tally_update_of_iff h

theorem inside_set_add (hi : ¬ (s.locals i).pc.Counted) (h : l.pc.Counted) :
    (s.set i c l).inside = s.inside + 1 := tally_update_add h hi

theorem inside_set_sub (hi : (s.locals i).pc.Counted) (h : ¬ l.pc.Counted) :
    (s.set i c l).inside + 1 = s.inside := tally_update_sub h hi

theorem leaders_set_of_iff (h : l.pc.Elected ↔ (s.locals i).pc.Elected) :
    (s.set i c l).leaders = s.leaders := tally_update_of_iff h

theorem leaders_set_add (hi : ¬ (s.locals i).pc.Elected) (h : l.pc.Elected) :
    (s.set i c l).leaders = s.leaders + 1 := tally_update_add h hi

theorem remaining_set_of_iff (h : l.rounds = r ↔ (s.locals i).rounds = r) :
    (s.set i c l).remaining r = s.remaining r := tally_update_of_iff h

theorem remaining_set_sub (hi : (s.locals i).rounds = r) (h : l.rounds ≠ r) :
    (s.set i c l).remaining r + 1 = s.remaining r := tally_update_sub h hi

theorem Pc.Early.cases : ∀ {pc : Pc}, pc.Early n → pc = .outside ∨ pc = .gate ∨ pc = .elect ∨
    (∃ b, pc = .arrive b) ∨ (∃ b current, pc = .spin b current) ∨ ∃ b, pc = .reload b
  | .outside, _ => .inl rfl
  | .gate, _ => .inr (.inl rfl)
  | .elect, _ => .inr (.inr (.inl rfl))
  | .arrive b, _ => .inr (.inr (.inr (.inl ⟨b, rfl⟩)))
  | .spin b current, _ => .inr (.inr (.inr (.inr (.inl ⟨b, current, rfl⟩))))
  | .reload b, _ => .inr (.inr (.inr (.inr (.inr ⟨b, rfl⟩))))

theorem Pc.Leading.cases : ∀ {pc : Pc}, pc.Leading n → (∃ current < n, pc = .spin true current) ∨
    pc = .reload true ∨ pc = .drain ∨ pc = .resetEnter ∨ pc = .resetPassing
  | .spin true current, h => .inl ⟨current, h.2, rfl⟩
  | .reload true, _ => .inr (.inl rfl)
  | .drain, _ => .inr (.inr (.inl rfl))
  | .resetEnter, _ => .inr (.inr (.inr (.inl rfl)))
  | .resetPassing, _ => .inr (.inr (.inr (.inr rfl)))

theorem Pc.Staying.cases : ∀ {pc : Pc}, pc.Staying n → (∃ current < n, pc = .spin false current) ∨
    pc = .reload false ∨ pc = .leave
  | .spin false current, h => .inl ⟨current, h.2, rfl⟩
  | .reload false, _ => .inr (.inl rfl)
  | .leave, _ => .inr (.inr rfl)

theorem Pc.Away.cases : ∀ {pc : Pc}, pc.Away → pc = .outside ∨ pc = .gate
  | .outside, _ => .inl rfl
  | .gate, _ => .inr rfl

theorem Pc.Counted.not_before : ∀ {pc : Pc}, pc.Counted → ¬ pc.Before
  | .spin _ _, _ | .reload _, _ | .drain, _ | .resetEnter, _ | .leave, _ => id

theorem Pc.Early.leading : ∀ {pc : Pc}, pc.Early n → pc.Counted → pc.Elected → pc.Leading n ∧ ¬ pc.Resetting
  | .spin _ _, hcurrent, _, hleader => ⟨⟨hleader, hcurrent⟩, id⟩
  | .reload _, _, _, hleader => ⟨hleader, id⟩

theorem Pc.Early.staying : ∀ {pc : Pc}, pc.Early n → pc.Counted → ¬ pc.Elected → pc.Staying n
  | .spin _ _, hcurrent, _, hleader => ⟨eq_false_iff.2 hleader, hcurrent⟩
  | .reload _, _, _, hleader => eq_false_iff.2 hleader

theorem Pc.Away.before : ∀ {pc : Pc}, pc.Away → pc.Before
  | .outside, _ | .gate, _ => trivial

theorem Pc.Away.early : ∀ {pc : Pc}, pc.Away → pc.Early n
  | .outside, _ | .gate, _ => trivial

theorem Pc.Away.not_counted : ∀ {pc : Pc}, pc.Away → ¬ pc.Counted
  | .outside, _ | .gate, _ => id

theorem Pc.Away.not_waiting : ∀ {pc : Pc}, pc.Away → ¬ pc.Waiting
  | .outside, _ | .gate, _ => id

theorem Pc.WaitsAs.waiting : ∀ {pc : Pc}, pc.WaitsAs b → pc.Waiting
  | .spin _ _, _ | .reload _, _ => trivial

theorem Pc.WaitsAs.counted : ∀ {pc : Pc}, pc.WaitsAs b → pc.Counted
  | .spin _ _, _ | .reload _, _ => trivial

theorem Pc.WaitsAs.elected_iff : ∀ {pc : Pc}, pc.WaitsAs b → (pc.Elected ↔ b = true)
  | .spin _ _, h | .reload _, h => by rw [← h]; rfl

theorem Pc.Leading.eq_of_waits : ∀ {pc : Pc}, pc.Leading n → pc.WaitsAs b → b = true
  | .spin _ _, h, hb => hb.symm.trans h.1
  | .reload _, h, hb => hb.symm.trans h

theorem Pc.Staying.eq_of_waits : ∀ {pc : Pc}, pc.Staying n → pc.WaitsAs b → b = false
  | .spin _ _, h, hb => hb.symm.trans h.1
  | .reload _, h, hb => hb.symm.trans h

theorem Pc.Before.not_elected : ∀ {pc : Pc}, pc.Before → ¬ pc.Elected
  | .outside, _ => id
  | .gate, _ => id
  | .elect, _ => id

/-- What holds of all participants but one, and of that one, holds of all. -/
theorem State.forall_set (P : Local → Prop) (h : ∀ j, P (s.locals j)) (hl : P l) : ∀ j, P ((s.set i c l).locals j) := by
  intro j
  by_cases hj : j = i
  · subst hj
    rw [State.set_self]
    exact hl
  · rw [State.set_of_ne s _ _ hj]
    exact h j

namespace Gather
section
variable (h : Gather r s)
include h

/-- A participant moves without being counted or elected. -/
theorem move (hpassed : l.passed = (s.locals i).passed) (hpc : l.pc.Early n)
    (hcounted : l.pc.Counted ↔ (s.locals i).pc.Counted)
    (helected : l.pc.Elected ↔ (s.locals i).pc.Elected)
    (hbefore : s.counters.passingCount = 0 → (s.locals i).pc.Before → l.pc.Before) :
    Gather r (s.set i s.counters l) where
  rounds := State.forall_set (fun l => l.rounds = r) h.rounds ((congrArg List.length hpassed).trans (h.rounds i))
  pcs := State.forall_set (fun l => l.pc.Early n) h.pcs hpc
  enterCount := h.enterCount.trans (inside_set_of_iff hcounted).symm
  passingCount := by
    rcases h.passingCount with ⟨hzero, hall⟩ | ⟨hn, hone⟩
    · exact .inl ⟨hzero, State.forall_set (fun l => l.pc.Before) hall (hbefore hzero (hall i))⟩
    · exact .inr ⟨hn, (leaders_set_of_iff helected).trans hone⟩

/-- Nobody but a participant that is counted waits. -/
theorem enterCount_lt (hi : ¬ (s.locals i).pc.Counted) : s.counters.enterCount < n :=
  h.enterCount.trans_lt ((tally_lt (p := fun l : Local => l.pc.Counted) hi).trans_eq (Fintype.card_fin n))

/-- Someone has been elected once a participant is past the election. -/
theorem elected (hi : ¬ (s.locals i).pc.Before) : s.counters.passingCount = n ∧ s.leaders = 1 :=
  h.passingCount.resolve_left fun hzero => hi (hzero.2 i)

/-- The first participant to come is elected. -/
theorem elect (hpc : (s.locals i).pc = .elect) (hzero : s.counters.passingCount = 0) :
    Gather r (s.set i (s.counters.setPassing n) ((s.locals i).goto (.arrive true))) where
  rounds := State.forall_set (fun l => l.rounds = r) h.rounds (h.rounds i)
  pcs := State.forall_set (fun l => l.pc.Early n) h.pcs trivial
  enterCount := h.enterCount.trans (inside_set_of_iff (by rw [hpc]; rfl)).symm
  passingCount := by
    refine .inr ⟨rfl, ?_⟩
    have hbefore : ∀ j, (s.locals j).pc.Before := by
      rcases h.passingCount with ⟨-, hall⟩ | ⟨hn, -⟩
      · exact hall
      · exact absurd (hn.symm.trans hzero) (ne_zero_of_lt i.isLt)
    have hnone : s.leaders = 0 := tally_eq_zero.2 fun j => (hbefore j).not_elected
    rw [leaders_set_add (by rw [hpc]; exact id) (by rfl), hnone]

/-- A participant arrives. -/
theorem arrive (hpc : (s.locals i).pc = .arrive leader) :
    Gather r (s.set i (s.counters.setEnter (s.counters.enterCount + 1))
      ((s.locals i).goto (.spin leader s.counters.enterCount))) where
  rounds := State.forall_set (fun l => l.rounds = r) h.rounds (h.rounds i)
  pcs := State.forall_set (fun l => l.pc.Early n) h.pcs (h.enterCount_lt (by rw [hpc]; exact id))
  enterCount := by
    rw [inside_set_add (by rw [hpc]; exact id) (show Pc.Counted (.spin _ _) from trivial), ← h.enterCount]
    rfl
  passingCount := by
    obtain ⟨hn, hone⟩ := h.elected (i := i) (by rw [hpc]; exact id)
    exact .inr ⟨hn, (leaders_set_of_iff (by rw [hpc]; rfl)).trans hone⟩

/-- A participant that is not the leader gives up. -/
theorem giveUp (hpc : (s.locals i).pc = .spin false current) :
    Gather r (s.set i (s.counters.setEnter (s.counters.enterCount - 1)) (s.locals i).giveUp) where
  rounds := State.forall_set (fun l => l.rounds = r) h.rounds (h.rounds i)
  pcs := State.forall_set (fun l => l.pc.Early n) h.pcs trivial
  enterCount := by
    have hsub : (s.set i (s.counters.setEnter (s.counters.enterCount - 1))
        (s.locals i).giveUp).inside + 1 = s.inside := inside_set_sub (by rw [hpc]; trivial) id
    have henter := h.enterCount
    rw [State.set_counters, Counters.setEnter_enterCount]
    omega
  passingCount := by
    obtain ⟨hn, hone⟩ := h.elected (i := i) (by rw [hpc]; exact id)
    refine .inr ⟨hn, (leaders_set_of_iff ?_).trans hone⟩
    rw [hpc]
    exact iff_of_false id false_ne_true

/-- Once all are counted, the round is open. -/
theorem isOpen (hpos : 0 < n) (hfull : s.counters.enterCount = n) : ∃ leader, Open r leader s := by
  have hcounted := tally_eq_card.1 ((h.enterCount.symm.trans hfull).trans (Fintype.card_fin n).symm)
  obtain ⟨hpassing, hone⟩ := h.elected (i := ⟨0, hpos⟩) (hcounted _).not_before
  obtain ⟨leader, hleader⟩ : ∃ i, (s.locals i).pc.Elected := by
    by_contra hnone
    have hzero : s.leaders = 0 := tally_eq_zero.2 (not_exists.1 hnone)
    omega
  have hothers : ∀ i, i ≠ leader → ¬ (s.locals i).pc.Elected := fun i hi =>
    not_of_tally_eq_one (p := fun l : Local => l.pc.Elected) hone hleader hi
  have hleading := (h.pcs leader).leading (hcounted leader) hleader
  refine ⟨leader, h.rounds leader, hleading.1, ?_, ?_, ?_, fun hreset => absurd hreset hleading.2⟩
  · exact fun i hi => .inl ⟨h.rounds i, (h.pcs i).staying (hcounted i) (hothers i hi)⟩
  · rw [hfull, if_neg fun heq => hleading.2 (by rw [heq]; trivial)]
  · rw [hpassing]
    exact ((tally_eq_card (p := fun l : Local => l.rounds = r)).2 h.rounds |>.trans (Fintype.card_fin n)).symm
end
end Gather

namespace Open
variable {leader : Fin n}
section
variable (h : Open r leader s)
include h

theorem remaining_pos : 0 < s.counters.passingCount := by
  refine pos_of_ne_zero fun hzero => ?_
  rw [h.passingCount] at hzero
  exact tally_eq_zero.1 hzero leader h.leader_rounds

/-- The leader is not alone as long as another participant stays. -/
theorem not_alone (hi : i ≠ leader) (hstays : (s.locals i).rounds = r) : s.counters.passingCount ≠ 1 := by
  intro hone
  rw [h.passingCount] at hone
  exact not_of_tally_eq_one (p := fun l : Local => l.rounds = r) hone h.leader_rounds hi hstays

/-- The leader moves. -/
theorem move_leader (hpassed : l.passed = (s.locals leader).passed) (hpc : l.pc.Leading n)
    (henter : s.counters.enterCount = if l.pc = .resetPassing then 0 else n)
    (halone : l.pc.Resetting → s.counters.passingCount = 1) :
    Open r leader (s.set leader s.counters l) := by
  have hrounds : l.rounds = r := (congrArg List.length hpassed).trans h.leader_rounds
  refine ⟨?_, ?_, ?_, ?_, ?_, ?_⟩
  · rw [State.set_self]
    exact hrounds
  · rw [State.set_self]
    exact hpc
  · intro j hj
    rw [State.set_of_ne s _ _ hj]
    exact h.follows j hj
  · rw [State.set_self]
    exact henter
  · rw [remaining_set_of_iff (iff_of_true hrounds h.leader_rounds)]
    exact h.passingCount
  · rw [State.set_self]
    exact halone

/-- Another participant moves. -/
theorem move (hi : i ≠ leader) (hl : Follows n r l)
    (hrounds : l.rounds = (s.locals i).rounds) : Open r leader (s.set i s.counters l) := by
  have hleader : (s.set i s.counters l).locals leader = s.locals leader := State.set_of_ne s _ _ hi.symm
  refine ⟨?_, ?_, ?_, ?_, ?_, ?_⟩
  · rw [hleader]
    exact h.leader_rounds
  · rw [hleader]
    exact h.leader_pc
  · intro j hj
    by_cases hji : j = i
    · subst hji
      rw [State.set_self]
      exact hl
    · rw [State.set_of_ne s _ _ hji]
      exact h.follows j hj
  · rw [hleader]
    exact h.enterCount
  · rw [remaining_set_of_iff (by rw [hrounds])]
    exact h.passingCount
  · rw [hleader]
    exact h.alone

/-- A participant leaves. -/
theorem leave (hi : i ≠ leader) (hpc : (s.locals i).pc = .leave) :
    Open r leader (s.set i (s.counters.setPassing (s.counters.passingCount - 1)) ((s.locals i).return_ false)) := by
  have hstays : (s.locals i).rounds = r := by
    rcases h.follows i hi with ⟨hrounds, -⟩ | ⟨-, -, haway⟩
    · exact hrounds
    · rw [hpc] at haway
      exact haway.elim
  have hleaves : ((s.locals i).return_ false).rounds = r + 1 := by
    rw [← hstays]
    exact length_append
  have hleader : ∀ c, (s.set i c ((s.locals i).return_ false)).locals leader = s.locals leader :=
    fun c => State.set_of_ne s _ _ hi.symm
  refine ⟨?_, ?_, ?_, ?_, ?_, ?_⟩
  · rw [hleader]
    exact h.leader_rounds
  · rw [hleader]
    exact h.leader_pc
  · intro j hj
    by_cases hji : j = i
    · subst hji
      rw [State.set_self]
      refine .inr ⟨hleaves, ?_, trivial⟩
      rw [← hstays]
      exact getElem?_concat_length
    · rw [State.set_of_ne s _ _ hji]
      exact h.follows j hj
  · rw [hleader]
    exact h.enterCount
  · have hsub := remaining_set_sub (c := s.counters.setPassing (s.counters.passingCount - 1)) hstays
      (hleaves.trans_ne (Nat.succ_ne_self r))
    have hpassing := h.passingCount
    rw [State.set_counters, Counters.setPassing_passingCount]
    omega
  · rw [hleader]
    exact fun hreset => absurd (h.alone hreset) (h.not_alone hi hstays)

/-- The leader resets `enter_count`. -/
theorem resetEnter (hpc : (s.locals leader).pc = .resetEnter) :
    Open r leader (s.set leader (s.counters.setEnter 0) ((s.locals leader).goto .resetPassing)) := by
  have hone := h.alone (by rw [hpc]; trivial)
  refine ⟨?_, ?_, ?_, ?_, ?_, fun _ => hone⟩
  · rw [State.set_self]
    exact h.leader_rounds
  · rw [State.set_self]
    trivial
  · intro j hj
    rw [State.set_of_ne s _ _ hj]
    exact h.follows j hj
  · rw [State.set_self]
    rfl
  · exact h.passingCount.trans (remaining_set_of_iff
      (l := (s.locals leader).goto .resetPassing) (iff_of_true h.leader_rounds h.leader_rounds)).symm

/-- Everybody but a leader that resets has left. -/
theorem left (hreset : (s.locals leader).pc.Resetting) (hi : i ≠ leader) :
    (s.locals i).rounds = r + 1 ∧ (s.locals i).passed[r]? = some false ∧ (s.locals i).pc.Away := by
  refine (h.follows i hi).resolve_left fun hstays => ?_
  exact h.not_alone hi hstays.1 (h.alone hreset)

/-- **The leader closes the round.** -/
theorem close (hhist : History r s) (hpc : (s.locals leader).pc = .resetPassing) :
    History (r + 1) (s.set leader (s.counters.setPassing 0) ((s.locals leader).return_ true)) ∧
      Gather (r + 1) (s.set leader (s.counters.setPassing 0) ((s.locals leader).return_ true)) := by
  have hleft : ∀ i, i ≠ leader → _ := fun i hi => h.left (i := i) (by rw [hpc]; trivial) hi
  have hall : ∀ (P : Local → Prop), P ((s.locals leader).return_ true) → (∀ i, i ≠ leader → P (s.locals i)) →
      ∀ i, P ((s.set leader (s.counters.setPassing 0) ((s.locals leader).return_ true)).locals i) := by
    intro P hleader hothers i
    by_cases hi : i = leader
    · subst hi
      rw [State.set_self]
      exact hleader
    · rw [State.set_of_ne s _ _ hi]
      exact hothers i hi
  refine ⟨fun k hk => ?_, ?_, ?_, ?_, .inl ⟨rfl, ?_⟩⟩
  · rcases Nat.lt_succ_iff_lt_or_eq.1 hk with hlt | rfl
    · exact hhist.return_ h.leader_rounds.ge true k hlt
    · refine ⟨leader, ?_, fun j hj => ?_⟩
      · rw [State.set_self, ← h.leader_rounds]
        exact getElem?_concat_length
      · rw [State.set_of_ne s _ _ hj]
        exact (hleft j hj).2.1
  · refine hall (fun l => l.rounds = r + 1) ?_ fun i hi => (hleft i hi).1
    rw [← h.leader_rounds]
    exact length_append
  · exact hall (fun l => l.pc.Early n) trivial fun i hi => (hleft i hi).2.2.early
  · rw [State.set_counters, Counters.setPassing_enterCount, h.enterCount, if_pos hpc]
    exact (tally_eq_zero.2 (hall (fun l => ¬ l.pc.Counted) id fun i hi => (hleft i hi).2.2.not_counted)).symm
  · exact hall (fun l => l.pc.Before) trivial fun i hi => (hleft i hi).2.2.before

/-- As long as someone waits, `enter_count` is the target. -/
theorem enterCount_of_waiting (hwaits : (s.locals i).pc.Waiting) : s.counters.enterCount = n := by
  rw [h.enterCount, if_neg]
  intro hpc
  by_cases hi : i = leader
  · subst hi
    rw [hpc] at hwaits
    exact hwaits
  · obtain ⟨-, -, haway⟩ := h.left (by rw [hpc]; trivial) hi
    exact haway.not_waiting hwaits

/-- A participant that waits reads `enter_count`. -/
theorem load (hpc : (s.locals i).pc.WaitsAs b) (hpassed : l.passed = (s.locals i).passed) :
    Open r leader (s.set i s.counters (l.test n b s.counters.enterCount)) := by
  have hfull := h.enterCount_of_waiting hpc.waiting
  have htest : l.test n b s.counters.enterCount = l.behind b := by rw [Local.test, if_neg hfull.not_lt]
  rw [htest]
  by_cases hi : i = leader
  · subst hi
    obtain rfl := h.leader_pc.eq_of_waits hpc
    refine h.move_leader hpassed trivial ?_ fun hreset => hreset.elim
    rw [hfull]
    rfl
  · have hstays : (s.locals i).rounds = r ∧ (s.locals i).pc.Staying n :=
      (h.follows i hi).resolve_right fun haway => haway.2.2.not_waiting hpc.waiting
    obtain rfl := hstays.2.eq_of_waits hpc
    have hrounds : (l.behind false).rounds = (s.locals i).rounds := congrArg List.length hpassed
    exact h.move hi (.inl ⟨hrounds.trans hstays.1, trivial⟩) hrounds
end
end Open

/-- A participant that waits in a round that gathers reads `enter_count`. -/
theorem Gather.load (h : Gather r s) (hpc : (s.locals i).pc.WaitsAs b) (hpassed : l.passed = (s.locals i).passed) :
    Gather r (s.set i s.counters (l.test n b s.counters.enterCount)) ∨
      ∃ leader, Open r leader (s.set i s.counters (l.test n b s.counters.enterCount)) := by
  by_cases hlt : s.counters.enterCount < n
  · rw [Local.test, if_pos hlt]
    exact .inl (h.move hpassed hlt (iff_of_true trivial hpc.counted) hpc.elected_iff.symm
      fun _ hbefore => absurd hbefore hpc.counted.not_before)
  · have hle : s.counters.enterCount ≤ n := h.enterCount.trans_le (tally_le.trans_eq (Fintype.card_fin n))
    obtain ⟨leader, hopen⟩ := h.isOpen i.pos (hle.antisymm (not_lt.1 hlt))
    exact .inr ⟨leader, hopen.load hpc hpassed⟩

theorem Action.step_access (h : (s.locals i).advance n late s.counters = .ok (c, l)) :
    (Action.access i late).step s = some (s.set i c l) := by
  simp only [Action.step, h]

theorem History.set (h : History r s) (hpassed : l.passed = (s.locals i).passed) : History r (s.set i c l) := by
  refine h.congr fun j => ?_
  by_cases hj : j = i
  · subst hj
    rw [State.set_self]
    exact hpassed
  · rw [State.set_of_ne s _ _ hj]

/-- An access in a round that gathers. -/
theorem Gather.access (hn : n < u32Size) (h : Gather r s)
    (hlegal : (s.locals i).pc ≠ .outside) (hquiet : (Action.access i late).Quiet s) :
    ∃ c l, (s.locals i).advance n late s.counters = .ok (c, l) ∧ l.passed = (s.locals i).passed ∧
      (Gather r (s.set i c l) ∨ ∃ leader, Open r leader (s.set i c l)) := by
  rw [Action.Quiet] at hquiet
  unfold Local.advance
  rcases (h.pcs i).cases with hpc | hpc | hpc | ⟨leader, hpc⟩ | ⟨leader, current, hpc⟩ | ⟨leader, hpc⟩
  · exact absurd hpc hlegal
  · have hopen : s.counters.passingCount = n ∨ s.counters.passingCount = 0 :=
      h.passingCount.elim (fun h => .inr h.1) fun h => .inl h.1
    simp only [hpc, if_pos hopen]
    refine ⟨_, _, rfl, rfl, .inl (h.move rfl trivial ?_ ?_ fun _ _ => trivial)⟩
    · rw [hpc]
      rfl
    · rw [hpc]
      rfl
  · by_cases hzero : s.counters.passingCount = 0
    · simp only [hpc, if_pos hzero]
      exact ⟨_, _, rfl, rfl, .inl (h.elect hpc hzero)⟩
    · simp only [hpc, if_neg hzero]
      refine ⟨_, _, rfl, rfl, .inl (h.move rfl trivial ?_ ?_ fun hz => absurd hz hzero)⟩
      · rw [hpc]
        rfl
      · rw [hpc]
        exact iff_of_false false_ne_true id
  · have hlt : s.counters.enterCount < n := h.enterCount_lt (by rw [hpc]; exact id)
    have hmod : (s.counters.enterCount + 1) % u32Size = s.counters.enterCount + 1 := Nat.mod_eq_of_lt (by omega)
    simp only [hpc, hmod, Local.test, if_pos hlt]
    exact ⟨_, _, rfl, rfl, .inl (h.arrive hpc)⟩
  · rw [hpc] at hquiet
    by_cases hlate : (s.locals i).isLate late = true
    · obtain ⟨hcurrent, hleader⟩ := hquiet hlate
      simp only [hpc, if_pos hlate, if_neg hcurrent]
      by_cases heq : s.counters.enterCount = current
      · have hfalse : leader = false := eq_false_iff.2 fun hl => hleader hl heq
        subst hfalse heq
        simp only [if_pos]
        exact ⟨_, _, rfl, rfl, .inl (h.giveUp hpc)⟩
      · simp only [if_neg heq]
        refine ⟨_, _, rfl, rfl, .inl (h.move rfl trivial ?_ ?_ fun _ hbefore => ?_)⟩
        · rw [hpc]
          rfl
        · rw [hpc]
          rfl
        · rw [hpc] at hbefore
          exact hbefore.elim
    · simp only [hpc, if_neg hlate]
      exact ⟨_, _, rfl, by rw [Local.passed_test]; rfl, h.load (by rw [hpc]; rfl) rfl⟩
  · simp only [hpc]
    exact ⟨_, _, rfl, Local.passed_test, h.load (by rw [hpc]; rfl) rfl⟩

/-- An access of the leader of an open round. -/
theorem Open.access_leader (h : Open r i s) (hhist : History r s) (hquiet : (Action.access i late).Quiet s) :
    ∃ c l, (s.locals i).advance n late s.counters = .ok (c, l) ∧ ((History r (s.set i c l) ∧ Open r i (s.set i c l)) ∨
        (History (r + 1) (s.set i c l) ∧ Gather (r + 1) (s.set i c l))) := by
  rw [Action.Quiet] at hquiet
  unfold Local.advance
  rcases h.leader_pc.cases with ⟨current, -, hpc⟩ | hpc | hpc | hpc | hpc
  · rw [hpc] at hquiet
    by_cases hlate : (s.locals i).isLate late = true
    · obtain ⟨hcurrent, hne⟩ := hquiet hlate
      simp only [hpc, if_pos hlate, if_neg hcurrent, if_neg (hne rfl)]
      refine ⟨_, _, rfl, .inl ⟨hhist.set rfl, h.move_leader rfl rfl ?_ fun hreset => hreset.elim⟩⟩
      rw [h.enterCount_of_waiting (i := i) (by rw [hpc]; trivial)]
      rfl
    · simp only [hpc, if_neg hlate]
      exact ⟨_, _, rfl, .inl ⟨hhist.set (by rw [Local.passed_test]; rfl), h.load (by rw [hpc]; rfl) rfl⟩⟩
  · simp only [hpc]
    exact ⟨_, _, rfl, .inl ⟨hhist.set Local.passed_test, h.load (by rw [hpc]; rfl) rfl⟩⟩
  · have henter : s.counters.enterCount = n := by rw [h.enterCount, if_neg (by rw [hpc]; exact Pc.noConfusion)]
    by_cases hone : s.counters.passingCount = 1
    · simp only [hpc, if_pos hone]
      exact ⟨_, _, rfl, .inl ⟨hhist.set rfl, h.move_leader rfl trivial henter fun _ => hone⟩⟩
    · rw [hpc] at hquiet
      have hlate : ¬ (s.locals i).isLate late = true := fun hlate => hone (hquiet hlate)
      simp only [hpc, if_neg hone, if_neg hlate]
      have hcheck : (s.locals i).check.pc = .drain := hpc
      refine ⟨_, _, rfl, .inl ⟨hhist.set rfl, h.move_leader rfl ?_ ?_ ?_⟩⟩
      · rw [hcheck]
        trivial
      · rw [hcheck]
        exact henter
      · rw [hcheck]
        exact False.elim
  · simp only [hpc]
    exact ⟨_, _, rfl, .inl ⟨hhist.set rfl, h.resetEnter hpc⟩⟩
  · simp only [hpc]
    exact ⟨_, _, rfl, .inr (h.close hhist hpc)⟩

/-- An access of another participant of an open round. -/
theorem Open.access (hn : n < u32Size) {leader : Fin n} (h : Open r leader s) (hhist : History r s)
    (hi : i ≠ leader) (hlegal : (s.locals i).pc ≠ .outside)
    (hquiet : (Action.access i late).Quiet s) :
    ∃ c l, (s.locals i).advance n late s.counters = .ok (c, l) ∧
      History r (s.set i c l) ∧ Open r leader (s.set i c l) := by
  rw [Action.Quiet] at hquiet
  unfold Local.advance
  rcases h.follows i hi with ⟨hrounds, hstays⟩ | ⟨hrounds, hlast, haway⟩
  · rcases hstays.cases with ⟨current, hlt, hpc⟩ | hpc | hpc
    · rw [hpc] at hquiet
      by_cases hlate : (s.locals i).isLate late = true
      · have hne : s.counters.enterCount ≠ current := by
          rw [h.enterCount_of_waiting (i := i) (by rw [hpc]; trivial)]
          exact hlt.ne'
        simp only [hpc, if_pos hlate, if_neg (hquiet hlate).1, if_neg hne]
        exact ⟨_, _, rfl, hhist.set rfl, h.move hi (.inl ⟨hrounds, rfl⟩) rfl⟩
      · simp only [hpc, if_neg hlate]
        exact ⟨_, _, rfl, hhist.set (by rw [Local.passed_test]; rfl), h.load (by rw [hpc]; rfl) rfl⟩
    · simp only [hpc]
      exact ⟨_, _, rfl, hhist.set Local.passed_test, h.load (by rw [hpc]; rfl) rfl⟩
    · have hpos := h.remaining_pos
      have hle : s.counters.passingCount ≤ n := h.passingCount.trans_le (tally_le.trans_eq (Fintype.card_fin n))
      have hmod : (s.counters.passingCount + (u32Size - 1)) % u32Size = s.counters.passingCount - 1 := by
        rw [show s.counters.passingCount + (u32Size - 1) =
          s.counters.passingCount - 1 + u32Size by omega, Nat.add_mod_right]
        exact Nat.mod_eq_of_lt (by omega)
      simp only [hpc, hmod]
      exact ⟨_, _, rfl, hhist.return_ hrounds.ge false, h.leave hi hpc⟩
  · rcases haway.cases with hpc | hpc
    · exact absurd hpc hlegal
    · have hshut : ¬ (s.counters.passingCount = n ∨ s.counters.passingCount = 0) := by
        have hpos := h.remaining_pos
        have hlt := h.passingCount.trans_lt ((tally_lt (p := fun l : Local => l.rounds = r)
          (hrounds.trans_ne (Nat.succ_ne_self r))).trans_eq (Fintype.card_fin n))
        omega
      simp only [hpc, if_neg hshut]
      by_cases hlate : (s.locals i).isLate late = true
      · simp only [if_pos hlate]
        exact ⟨_, _, rfl, hhist.set rfl, h.move hi (.inr ⟨hrounds, hlast, trivial⟩) rfl⟩
      · simp only [if_neg hlate]
        exact ⟨_, _, rfl, hhist.set rfl, h.move hi (.inr ⟨hrounds, hlast, haway⟩) rfl⟩

/-- A call starts. -/
theorem Inv.call (h : Inv s) (hlegal : (s.locals i).pc = .outside) (timed : Bool) :
    Inv (s.set i s.counters ((s.locals i).call timed)) := by
  obtain ⟨r, hhist, hgather | ⟨leader, hopen⟩⟩ := h
  · refine ⟨r, hhist.set rfl, .inl (hgather.move rfl trivial ?_ ?_ fun _ _ => trivial)⟩
    · rw [hlegal]
      rfl
    · rw [hlegal]
      rfl
  · have hi : i ≠ leader := by
      rintro rfl
      have hleading := hopen.leader_pc
      rw [hlegal] at hleading
      exact hleading
    refine ⟨r, hhist.set rfl, .inr ⟨leader, hopen.move hi (.inr ?_) rfl⟩⟩
    refine (hopen.follows i hi).elim (fun hstays => ?_) fun haway => ⟨haway.1, haway.2.1, trivial⟩
    have hstays := hstays.2
    rw [hlegal] at hstays
    exact hstays.elim

/-- **The barrier stays in its rounds.** -/
theorem Inv.step (hn : n < u32Size) {a : Action n} (h : Inv s) (hlegal : a.Legal s)
    (hquiet : a.Quiet s) : ∃ s' ∈ a.step s, Inv s' := by
  cases a with
  | call i timed => exact ⟨_, rfl, h.call hlegal timed⟩
  | access i late =>
    obtain ⟨r, hhist, hgather | ⟨leader, hopen⟩⟩ := h
    · obtain ⟨c, l, hadvance, hpassed, hnext⟩ := hgather.access hn hlegal hquiet
      exact ⟨_, Action.step_access hadvance, r, hhist.set hpassed, hnext⟩
    · by_cases hi : i = leader
      · subst hi
        obtain ⟨c, l, hadvance, hnext⟩ := hopen.access_leader hhist hquiet
        refine ⟨_, Action.step_access hadvance, ?_⟩
        rcases hnext with ⟨hhist', hopen'⟩ | ⟨hhist', hgather'⟩
        · exact ⟨r, hhist', .inr ⟨i, hopen'⟩⟩
        · exact ⟨r + 1, hhist', .inl hgather'⟩
      · obtain ⟨c, l, hadvance, hhist', hopen'⟩ := hopen.access hn hhist hi hlegal hquiet
        exact ⟨_, Action.step_access hadvance, r, hhist', .inr ⟨leader, hopen'⟩⟩

theorem inv_fresh : Inv (State.fresh n) := by
  refine ⟨0, fun k hk => absurd hk (Nat.not_lt_zero k), .inl ⟨fun _ => rfl, fun _ => trivial, ?_,
    .inl ⟨rfl, fun _ => trivial⟩⟩⟩
  exact (tally_eq_zero.2 fun _ => id).symm
end Barrier
end WasabiOS
