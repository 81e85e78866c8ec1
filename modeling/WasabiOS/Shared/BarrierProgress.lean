import WasabiOS.Shared.BarrierRounds

/-!
# Shared/BarrierProgress — every round of `enter` ends

An access **gets on** if it is not one more turn of a waiting loop.  As long as not everybody is done,
somebody can get on or can be called, and that makes the way to the end shorter (`Inv.progress`).  So
from every reachable state a state can be reached in which everybody is outside (`Inv.exists_idle`),
and with the invariant this is all there is to say of rounds of `enter` (`Rounds`).
-/

open Machinery
namespace WasabiOS
open Option Finset Run
namespace Barrier
variable {n : ℕ} {target : ℕ}
namespace Pc

/-- The accesses that are left of a call, at most. -/
def rest : Pc → ℕ
  | outside => 0
  | gate => 8
  | elect => 7
  | arrive _ => 6
  | spin _ _ => 5
  | reload _ => 5
  | drain => 3
  | resetEnter => 2
  | resetPassing => 1
  | leave => 1

/-- The access gets on. -/
def GetsOn (target : ℕ) (c : Counters) : Pc → Prop
  | outside => False
  | gate => c.passingCount = target ∨ c.passingCount = 0
  | spin _ _ | reload _ => ¬ c.enterCount < target
  | drain => c.passingCount = 1
  | _ => True

/-- Past `enter_count.fetch_add(1)`. -/
def Arrived : Pc → Prop
  | outside | gate | elect | arrive _ => False
  | _ => True

instance : DecidablePred Arrived
  | outside | gate | elect | arrive _ => inferInstanceAs (Decidable False)
  | spin _ _ | reload _ | drain | resetEnter | resetPassing | leave => inferInstanceAs (Decidable True)
end Pc

theorem Pc.Leading.not_before : ∀ {pc : Pc}, pc.Leading n → ¬ pc.Before
  | .spin _ _, _ | .reload _, _ | .drain, _ | .resetEnter, _ | .resetPassing, _ => id

theorem Pc.Leading.arrived : ∀ {pc : Pc}, pc.Leading n → pc.Arrived
  | .spin _ _, _ | .reload _, _ | .drain, _ | .resetEnter, _ | .resetPassing, _ => trivial

theorem Pc.Staying.arrived : ∀ {pc : Pc}, pc.Staying n → pc.Arrived
  | .spin _ _, _ | .reload _, _ | .leave, _ => trivial

theorem Pc.Waiting.getsOn {c : Counters} (hfull : ¬ c.enterCount < target) :
    ∀ {pc : Pc}, pc.Waiting → pc.GetsOn target c
  | .spin _ _, _ | .reload _, _ => hfull

namespace Local

/-- The rounds a participant is done with or in. -/
def begun (l : Local) : ℕ := if l.pc = .outside then l.rounds else l.rounds + 1

/-- The rounds a participant has entered. -/
def entered (l : Local) : ℕ := if l.pc.Arrived then l.rounds + 1 else l.rounds

/-- The way to the end of round `R`. -/
def cost (R : ℕ) (l : Local) : ℕ := 9 * (R - l.begun) + l.pc.rest
end Local

/-- Nobody is timed. -/
def Patient (s : State n) : Prop := ∀ i, (s.locals i).timed = false

/-- A call of `enter`, or an access. -/
def Action.Untimed : Action n → Prop
  | call _ timed => timed = false
  | access _ _ => True

instance : DecidablePred (Action.Untimed (n := n))
  | .call _ timed => inferInstanceAs (Decidable (timed = false))
  | .access _ _ => inferInstanceAs (Decidable True)

/-- Nobody is called who has passed `R` rounds. -/
def Action.Within (R : ℕ) : Action n → State n → Prop
  | call i _, s => (s.locals i).rounds < R
  | access _ _, _ => True

instance (R : ℕ) (s : State n) : ∀ a : Action n, Decidable (a.Within R s)
  | .call i _ => inferInstanceAs (Decidable ((s.locals i).rounds < R))
  | .access _ _ => inferInstanceAs (Decidable True)

/-- One of `R` rounds of `enter`. -/
def Action.InRounds (R : ℕ) (a : Action n) (s : State n) : Prop := a.Legal s ∧ a.Untimed ∧ a.Within R s

variable {R r : ℕ} {s : State n} {i : Fin n} {c c' : Counters} {l l' : Local} {late : Bool} {b : Bool} {s' : State n}

theorem Local.isLate_of_untimed (h : l.timed = false) : l.isLate late = false := by
  rw [Local.isLate, h]
  rfl

theorem Local.begun_of_passed (hpassed : l'.passed = l.passed) (hl : l.pc ≠ .outside)
    (hl' : l'.pc ≠ .outside) : l'.begun = l.begun := by
  rw [Local.begun, Local.begun, if_neg hl, if_neg hl', Local.rounds, Local.rounds, hpassed]

/-- At the end of a call the round counts as passed. -/
theorem Local.begun_return (hl : l.pc ≠ .outside) : (l.return_ b).begun = l.begun := by
  rw [Local.begun, Local.begun, if_pos (show (l.return_ b).pc = .outside from rfl), if_neg hl]
  exact List.length_append

/-- Further on in the same call. -/
theorem Local.shorter (hpassed : l'.passed = l.passed) (hl : l.pc ≠ .outside) (hl' : l'.pc ≠ .outside)
    (hrest : l'.pc.rest < l.pc.rest) : l'.begun = l.begun ∧ l'.cost R < l.cost R := by
  have hbegun := Local.begun_of_passed hpassed hl hl'
  refine ⟨hbegun, ?_⟩
  rw [Local.cost, Local.cost, hbegun]
  omega

/-- At the end of a call. -/
theorem Local.shorter_return (hl : l.pc ≠ .outside) (hrest : 0 < l.pc.rest) :
    (l.return_ b).begun = l.begun ∧ (l.return_ b).cost R < l.cost R := by
  have hbegun : (l.return_ b).begun = l.begun := Local.begun_return hl
  refine ⟨hbegun, ?_⟩
  rw [Local.cost, Local.cost, hbegun]
  exact Nat.add_lt_add_left hrest _

/-- Where the second loop ends. -/
theorem Local.behind_pc (b : Bool) : (l.behind b).pc ≠ .outside ∧ (l.behind b).pc.rest ≤ 3 := by
  cases b
  · exact ⟨Pc.noConfusion, Nat.le_add_left 1 2⟩
  · exact ⟨Pc.noConfusion, le_rfl⟩

/-- An access that gets on is one step less to go. -/
theorem Local.advance_shorter (hl : l.timed = false) (hon : l.pc.GetsOn n c) :
    ∃ c' l', l.advance n late c = .ok (c', l') ∧ l'.begun = l.begun ∧ l'.cost R < l.cost R := by
  have hlate : ¬ l.isLate late = true := Bool.eq_false_iff.1 (Local.isLate_of_untimed hl)
  have hin : l.pc ≠ .outside := fun hpc => by rw [hpc] at hon; exact hon
  have hgoto : ∀ {pc : Pc}, pc ≠ .outside → pc.rest < l.pc.rest →
      (l.goto pc).begun = l.begun ∧ (l.goto pc).cost R < l.cost R := fun hpc hrest =>
    Local.shorter rfl hin hpc hrest
  have hbehind : ∀ {m : Local} {b : Bool}, m.passed = l.passed → 3 < l.pc.rest →
      (m.behind b).begun = l.begun ∧ (m.behind b).cost R < l.cost R := fun hm hrest =>
    Local.shorter hm hin (Local.behind_pc _).1 ((Local.behind_pc _).2.trans_lt hrest)
  unfold Local.advance
  cases hpc : l.pc with
  | outside => exact absurd hpc hin
  | gate =>
    rw [hpc] at hon
    have hopen : c.passingCount = n ∨ c.passingCount = 0 := hon
    simp only [if_pos hopen]
    exact ⟨_, _, rfl, hgoto Pc.noConfusion (by rw [hpc]; decide)⟩
  | elect =>
    by_cases hzero : c.passingCount = 0
    all_goals
      simp only [hzero, if_true, if_false]
      exact ⟨_, _, rfl, hgoto Pc.noConfusion (by rw [hpc]; exact lt_add_one 6)⟩
  | arrive b =>
    by_cases hlt : c.enterCount < n
    · simp only [Local.test, if_pos hlt]
      exact ⟨_, _, rfl, hgoto Pc.noConfusion (by rw [hpc]; exact lt_add_one 5)⟩
    · simp only [Local.test, if_neg hlt]
      exact ⟨_, _, rfl, hbehind rfl (by rw [hpc]; simp [Pc.rest])⟩
  | spin b current =>
    rw [hpc] at hon
    have hfull : ¬ c.enterCount < n := hon
    simp only [if_neg hlate, Local.test, if_neg hfull]
    exact ⟨_, _, rfl, hbehind rfl (by rw [hpc]; simp [Pc.rest])⟩
  | reload b =>
    rw [hpc] at hon
    have hfull : ¬ c.enterCount < n := hon
    simp only [Local.test, if_neg hfull]
    exact ⟨_, _, rfl, hbehind rfl (by rw [hpc]; simp [Pc.rest])⟩
  | drain =>
    rw [hpc] at hon
    have hone : c.passingCount = 1 := hon
    simp only [if_pos hone]
    exact ⟨_, _, rfl, hgoto Pc.noConfusion (by rw [hpc]; decide)⟩
  | resetEnter => exact ⟨_, _, rfl, hgoto Pc.noConfusion (by rw [hpc]; decide)⟩
  | resetPassing | leave => exact ⟨_, _, rfl, Local.shorter_return hin (by rw [hpc]; decide)⟩

/-- Somebody gets on, once everybody is called. -/
theorem Inv.getsOn (h : Inv s) (hout : ∀ j, (s.locals j).pc = .outside → (s.locals j).rounds = R)
    (hbegun : ∀ j, (s.locals j).begun ≤ R) (hi : (s.locals i).pc ≠ .outside) :
    ∃ j, (s.locals j).pc.GetsOn n s.counters := by
  obtain ⟨r, -, hgather | ⟨leader, hopen⟩⟩ := h
  · have hin : ∀ j, (s.locals j).pc ≠ .outside := by
      intro j hj
      have hR := hbegun i
      rw [Local.begun, if_neg hi, hgather.rounds i, ← hout j hj, hgather.rounds j] at hR
      exact Nat.not_succ_le_self r hR
    by_cases hall : ∀ j, (s.locals j).pc.Counted
    · -- everybody waits, and the count is full
      have hfull : s.counters.enterCount = n :=
        hgather.enterCount.trans ((tally_eq_card.2 hall).trans (Fintype.card_fin n))
      refine ⟨i, ?_⟩
      have hcounted := hall i
      rcases (hgather.pcs i).cases with hpc | hpc | hpc | ⟨b, hpc⟩ | ⟨b, current, hpc⟩ | ⟨b, hpc⟩
      · exact absurd hpc hi
      · exact absurd hcounted (by rw [hpc]; exact id)
      · exact absurd hcounted (by rw [hpc]; exact id)
      · exact absurd hcounted (by rw [hpc]; exact id)
      · rw [hpc]
        exact hfull.not_lt
      · rw [hpc]
        exact hfull.not_lt
    · obtain ⟨j, hj⟩ := not_forall.1 hall
      refine ⟨j, ?_⟩
      rcases (hgather.pcs j).cases with hpc | hpc | hpc | ⟨b, hpc⟩ | ⟨b, current, hpc⟩ | ⟨b, hpc⟩
      · exact absurd hpc (hin j)
      · rw [hpc]
        exact hgather.passingCount.elim (fun h => .inr h.1) fun h => .inl h.1
      · rw [hpc]
        trivial
      · rw [hpc]
        trivial
      · exact absurd trivial (by rw [hpc] at hj; exact hj)
      · exact absurd trivial (by rw [hpc] at hj; exact hj)
  · have hwaits : ∀ j, (s.locals j).pc.Waiting → (s.locals j).pc.GetsOn n s.counters := by
      intro j hj
      have hfull := hopen.enterCount_of_waiting hj
      exact Pc.Waiting.getsOn hfull.not_lt hj
    rcases hopen.leader_pc.cases with ⟨current, -, hpc⟩ | hpc | hpc | hpc | hpc
    · exact ⟨leader, hwaits leader (by rw [hpc]; trivial)⟩
    · exact ⟨leader, hwaits leader (by rw [hpc]; trivial)⟩
    · by_cases hone : s.counters.passingCount = 1
      · exact ⟨leader, by rw [hpc]; exact hone⟩
      · -- someone has not left
        obtain ⟨j, hj, hrounds⟩ : ∃ j, j ≠ leader ∧ (s.locals j).rounds = r := by
          by_contra hnone
          refine hone (hopen.passingCount.trans (tally_eq_one hopen.leader_rounds fun j hj hr => ?_))
          exact hnone ⟨j, hj, hr⟩
        have hstays : (s.locals j).pc.Staying n := (hopen.follows j hj).elim And.right fun haway =>
            absurd (hrounds.symm.trans haway.1) (Nat.succ_ne_self r).symm
        rcases hstays.cases with ⟨current, -, hpc⟩ | hpc | hpc
        · exact ⟨j, hwaits j (by rw [hpc]; trivial)⟩
        · exact ⟨j, hwaits j (by rw [hpc]; trivial)⟩
        · exact ⟨j, by rw [hpc]; trivial⟩
    · exact ⟨leader, by rw [hpc]; trivial⟩
    · exact ⟨leader, by rw [hpc]; trivial⟩

/-! ## Reaching the end -/

theorem Local.timed_test {current : ℕ} : (l.test target b current).timed = l.timed := by
  rw [Local.test]
  split <;> rfl

/-- An access does not change what the call is. -/
theorem Local.advance_timed (h : l.advance n late c = .ok (c', l')) : l'.timed = l.timed := by
  unfold Local.advance at h
  cases hpc : l.pc <;> simp only [hpc] at h <;> (try split_ifs at h) <;> cases h <;>
    first | rfl | exact Local.timed_test

theorem Action.access_eq (h : s' ∈ (access i late).step s) :
    ∃ c l, (s.locals i).advance n late s.counters = .ok (c, l) ∧ s' = s.set i c l := by
  rw [Action.step] at h
  split at h
  · next c l hadvance => exact ⟨c, l, hadvance, (Option.some.inj h).symm⟩
  · exact absurd h (not_mem_none s')

/-- Nobody becomes timed. -/
theorem Patient.step (h : Patient s) {a : Action n} (ha : a.Untimed)
    (hs : s' ∈ a.step s) : Patient s' := by
  cases a with
  | call i timed =>
    cases hs
    exact State.forall_set (fun l => l.timed = false) h ha
  | access i late =>
    obtain ⟨c, l, hadvance, rfl⟩ := Action.access_eq hs
    exact State.forall_set (fun l => l.timed = false) h ((Local.advance_timed hadvance).trans (h i))

theorem Patient.quiet (h : Patient s) (a : Action n) : a.Quiet s := by
  cases a with
  | call i timed => trivial
  | access i late =>
    intro hlate
    rw [Local.isLate_of_untimed (h i)] at hlate
    exact absurd hlate Bool.false_ne_true

/-- What is left to do until everybody has passed `R` rounds. -/
def State.cost (R : ℕ) (s : State n) : ℕ := ∑ i, (s.locals i).cost R

theorem State.cost_set_lt (h : l.cost R < (s.locals i).cost R) : (s.set i c l).cost R < s.cost R := by
  refine sum_lt_sum (fun j _ => ?_) ⟨i, mem_univ i, ?_⟩
  · by_cases hj : j = i
    · subst hj
      rw [State.set_self]
      exact h.le
    · rw [State.set_of_ne s _ _ hj]
  · rw [State.set_self]
    exact h

/-- **Progress**: a call or an access that shortens the way to the end. -/
theorem Inv.progress (hn : n < u32Size) (h : Inv s) (hpatient : Patient s) (hbegun : ∀ j, (s.locals j).begun ≤ R)
    (hnot : ¬ ∀ j, (s.locals j).pc = .outside ∧ (s.locals j).rounds = R) :
    ∃ a : Action n, a.InRounds R s ∧ ∃ s' ∈ a.step s, Inv s' ∧ (∀ j, (s'.locals j).begun ≤ R) ∧
      s'.cost R < s.cost R := by
  by_cases hout : ∀ j, (s.locals j).pc = .outside → (s.locals j).rounds = R
  · obtain ⟨i, hi⟩ : ∃ i, (s.locals i).pc ≠ .outside := by
      by_contra hall
      exact hnot fun j => ⟨not_not.1 (not_exists.1 hall j), hout j (not_not.1 (not_exists.1 hall j))⟩
    obtain ⟨j, hj⟩ := h.getsOn hout hbegun hi
    have hlegal : (Action.access j false).Legal s := fun hpc => by rw [hpc] at hj; exact hj
    obtain ⟨c, l, hadvance, hsame, hless⟩ : ∃ c l, (s.locals j).advance n false s.counters = .ok (c, l) ∧
        l.begun = (s.locals j).begun ∧ l.cost R < (s.locals j).cost R :=
      Local.advance_shorter (hpatient j) hj
    obtain ⟨s', hs', hinv⟩ := h.step hn hlegal (hpatient.quiet _)
    cases mem_unique hs' (Action.step_access hadvance)
    exact ⟨.access j false, ⟨hlegal, trivial, trivial⟩, _, hs', hinv,
      State.forall_set (fun l => l.begun ≤ R) hbegun (hsame.trans_le (hbegun j)),
      State.cost_set_lt hless⟩
  · -- a participant that is outside and not done is called
    obtain ⟨j, hj⟩ := not_forall.1 hout
    obtain ⟨hpc, hrounds⟩ := Classical.not_imp.1 hj
    have hlt : (s.locals j).rounds < R := by
      refine lt_of_le_of_ne ?_ hrounds
      have hle := hbegun j
      rwa [Local.begun, if_pos hpc] at hle
    have hcall : ((s.locals j).call false).begun = (s.locals j).begun + 1 := by
      rw [Local.begun, Local.begun, if_pos hpc, if_neg Pc.noConfusion]
      rfl
    have hold : (s.locals j).begun = (s.locals j).rounds := if_pos hpc
    refine ⟨.call j false, ⟨hpc, rfl, hlt⟩, _, rfl, h.call hpc false,
      State.forall_set (fun l => l.begun ≤ R) hbegun (hcall.trans_le (hold.symm ▸ hlt)),
      State.cost_set_lt ?_⟩
    rw [Local.cost, Local.cost, hcall, hold, hpc]
    simp only [Local.call, Pc.rest]
    omega

/-- `t` is reached from `s` in `R` rounds of `enter`. -/
def Reaches (R : ℕ) (s t : State n) : Prop :=
  ∃ as, Along Action.step (Action.InRounds R) as s ∧ t ∈ runFrom Action.step as s

/-- Everybody is outside, after `R` rounds, and the barrier is as new. -/
def Idle (R : ℕ) (s : State n) : Prop :=
  (∀ i, (s.locals i).pc = .outside ∧ (s.locals i).rounds = R) ∧ s.counters = ⟨0, 0⟩

/-- Before the election of a round both counters are zero. -/
theorem Inv.reset (h : Inv s) (hbefore : ∀ i, (s.locals i).pc.Before) : s.counters = ⟨0, 0⟩ := by
  obtain ⟨r, -, hgather | ⟨leader, hopen⟩⟩ := h
  · have henter : s.counters.enterCount = 0 :=
      hgather.enterCount.trans (tally_eq_zero.2 fun i hi => hi.not_before (hbefore i))
    have hpassing : s.counters.passingCount = 0 := by
      refine hgather.passingCount.elim And.left fun helected => ?_
      have hnone : s.leaders = 0 := tally_eq_zero.2 fun i => (hbefore i).not_elected
      exact absurd (hnone.symm.trans helected.2) zero_ne_one
    exact congrArg₂ Counters.mk henter hpassing
  · exact absurd (hbefore leader) hopen.leader_pc.not_before

/-- **No deadlock**: everybody can get to the end of round `R`. -/
theorem Inv.exists_idle (hn : n < u32Size) (h : Inv s) (hpatient : Patient s)
    (hbegun : ∀ j, (s.locals j).begun ≤ R) : ∃ t, Reaches R s t ∧ Idle R t ∧ Inv t := by
  induction hcost : s.cost R using Nat.strong_induction_on generalizing s with
  | _ m ih =>
    by_cases hdone : ∀ j, (s.locals j).pc = .outside ∧ (s.locals j).rounds = R
    · exact ⟨s, ⟨[], trivial, rfl⟩, ⟨hdone, h.reset fun i => by rw [(hdone i).1]; trivial⟩, h⟩
    · obtain ⟨a, ha, s', hs', hinv, hbegun', hless⟩ := h.progress hn hpatient hbegun hdone
      obtain ⟨t, ⟨as, halong, ht⟩, hidle⟩ := ih _ (hcost ▸ hless) hinv (hpatient.step ha.2.1 hs') hbegun' rfl
      refine ⟨t, ⟨a :: as, ⟨ha, fun s'' hs'' => ?_⟩, ?_⟩, hidle⟩
      · cases mem_unique hs' hs''
        exact halong
      · exact mem_bind_iff.2 ⟨s', hs', ht⟩

/-! ## Rounds -/

theorem Local.rounds_le_entered : l.rounds ≤ l.entered := by
  rw [Local.entered]
  split
  · exact Nat.le_succ _
  · exact le_rfl

/-- What rounds of `enter` promise. -/
structure Rounds (s : State n) : Prop where
  /-- nobody has left a round that somebody has not entered -/
  together : ∀ i j, (s.locals i).rounds ≤ (s.locals j).entered
  /-- a round that everybody has left has had one leader -/
  leader : ∀ k, (∀ i, k < (s.locals i).rounds) →
    ∃ i, (s.locals i).passed[k]? = some true ∧ ∀ j, j ≠ i → (s.locals j).passed[k]? = some false
  /-- between two rounds both counters are zero -/
  reset : (∀ i, (s.locals i).pc.Before) → s.counters = ⟨0, 0⟩
  /-- everybody can get to the end of any round that is not over -/
  live : ∀ R, (∀ i, (s.locals i).begun ≤ R) → ∃ t, Reaches R s t ∧ Idle R t

theorem Inv.together (h : Inv s) (i j : Fin n) : (s.locals i).rounds ≤ (s.locals j).entered := by
  obtain ⟨r, -, hgather | ⟨leader, hopen⟩⟩ := h
  · rw [hgather.rounds i, ← hgather.rounds j]
    exact Local.rounds_le_entered
  · have hle : (s.locals i).rounds ≤ r + 1 := by
      by_cases hi : i = leader
      · rw [hi, hopen.leader_rounds]
        exact Nat.le_succ r
      · exact (hopen.follows i hi).elim (fun h => h.1.trans_le (Nat.le_succ r)) fun h => h.1.le
    refine hle.trans ?_
    have harrived : (s.locals j).pc.Arrived → (s.locals j).rounds = r → r + 1 ≤ (s.locals j).entered := by
      intro hpc hrounds
      rw [Local.entered, if_pos hpc, hrounds]
    by_cases hj : j = leader
    · rw [hj] at harrived ⊢
      exact harrived hopen.leader_pc.arrived hopen.leader_rounds
    · rcases hopen.follows j hj with ⟨hrounds, hstays⟩ | ⟨hrounds, -, -⟩
      · exact harrived hstays.arrived hrounds
      · exact hrounds.ge.trans Local.rounds_le_entered

theorem Inv.rounds (hpos : 0 < n) (hn : n < u32Size) (h : Inv s) (hpatient : Patient s) : Rounds s where
  together := h.together
  leader k hk := by
    obtain ⟨r, hhist, hgather | ⟨leader, hopen⟩⟩ := h
    · exact hhist k ((hk ⟨0, hpos⟩).trans_eq (hgather.rounds _))
    · exact hhist k ((hk leader).trans_eq hopen.leader_rounds)
  reset := h.reset
  live R hbegun := by
    obtain ⟨t, hreaches, hidle, -⟩ := h.exists_idle hn hpatient hbegun
    exact ⟨t, hreaches, hidle⟩

/-- **Rounds of `enter`**: in every interleaving of any number of calls nothing is broken. -/
theorem rounds_of_enter (hpos : 0 < n) (hn : n < u32Size) {as : List (Action n)}
    (h : Along Action.step (fun a s => a.Legal s ∧ a.Untimed) as (State.fresh n)) :
    Safe Action.step Rounds as (State.fresh n) := by
  have hsafe : Safe Action.step (fun s => Inv s ∧ Patient s) as (State.fresh n) := by
    refine safe_of_along (fun a s hs ha => ?_) ⟨inv_fresh, fun _ => rfl⟩ h
    obtain ⟨s', hs', hinv'⟩ := hs.1.step hn ha.1 (hs.2.quiet a)
    exact ⟨s', hs', hinv', hs.2.step ha.2 hs'⟩
  exact hsafe.mono fun s hs => hs.1.rounds hpos hn hs.2

/-- Two participants; the second comes back while the first, who leads, still waits for it. -/
theorem rounds_of_two : Safe Action.step Rounds
      [.call 0 false, .access 0 false, .access 0 false, .call 1 false, .access 1 false, .access 0 false,
        .access 1 false, .access 1 false, .access 1 false, .access 1 false, .call 1 false,
        .access 1 false, .access 0 false, .access 0 false] (State.fresh 2) :=
  rounds_of_enter (by decide) (by decide) (by decide)
end Barrier
end WasabiOS
