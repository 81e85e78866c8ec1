import WasabiOS.Shared.BarrierProgress

/-!
# Shared/BarrierTimeout — what a timeout leaves behind

`enter_with_timeout` may give up at three places, and takes back only what it added to `enter_count`.
The barrier is **recovered** if a round of `enter` from its counters is one of a fresh barrier.

A leader that gives up has been elected and stays so.  In the second loop it leaves `passing_count` at
the target, and the next round has no leader (`Headless`, `Unled`); in its own loop it leaves
`passing_count` at one, and nobody ever passes the gate again (`Leaderless`, `Shut`).
-/

open Machinery
namespace WasabiOS
open Nat List Option Function Run
variable {c c' : Counters} {l l' : Local} {late : Bool}
namespace Barrier
variable {n : ℕ} {b : Bool} {current : ℕ}

/-- Everybody outside of a barrier with counters `c`. -/
def State.resting (n : ℕ) (c : Counters) : State n := { State.fresh n with counters := c }

/-- A round has ended as it should. -/
def Finished (s : State n) : Prop := (∀ i, (s.locals i).pc = .outside) ∧
    (∃ i, (s.locals i).passed = [true] ∧ ∀ j, j ≠ i → (s.locals j).passed = [false]) ∧
    s.counters = ⟨0, 0⟩

/-- A round of `enter` can be finished, and has ended as it should once everybody has left. -/
def Finishes (s : State n) : Prop := (∃ t, Reaches 1 s t ∧ Finished t) ∧
    ((∀ i, (s.locals i).pc = .outside ∧ (s.locals i).rounds = 1) → Finished s)

/-- **The barrier is as good as new**: whatever is done in a round of `enter` from here, nobody panics
and the round finishes. -/
def Recovered (n : ℕ) (c : Counters) : Prop :=
  ∀ as : List (Action n), Along Action.step (Action.InRounds 1) as (State.resting n c) →
    Safe Action.step Finishes as (State.resting n c)

variable {s s' : State n} {i : Fin n}

theorem Local.pc_test_ne {target : ℕ} : (l.test target b current).pc ≠ .outside := by
  rw [Local.test]
  split
  · exact Pc.noConfusion
  · exact (Local.behind_pc b).1

/-- An access of `enter` begins no round. -/
theorem Local.advance_begun (hl : l.timed = false) (hin : l.pc ≠ .outside)
    (h : l.advance n late c = .ok (c', l')) : l'.begun = l.begun := by
  have hlate : ¬ l.isLate late = true := Bool.eq_false_iff.1 (Local.isLate_of_untimed hl)
  unfold Local.advance at h
  cases hpc : l.pc with
  | outside => exact absurd hpc hin
  | gate =>
    simp only [hpc, if_neg hlate] at h
    split at h
    · cases h
      exact Local.begun_of_passed rfl hin Pc.noConfusion
    · cases h
      exact Local.begun_of_passed rfl hin (by rw [show l.check.pc = l.pc from rfl]; exact hin)
  | elect =>
    simp only [hpc] at h
    split at h <;> cases h <;> exact Local.begun_of_passed rfl hin Pc.noConfusion
  | arrive b | reload b =>
    simp only [hpc] at h
    cases h
    exact Local.begun_of_passed Local.passed_test hin Local.pc_test_ne
  | spin b current =>
    simp only [hpc, if_neg hlate] at h
    cases h
    exact Local.begun_of_passed Local.passed_test hin Local.pc_test_ne
  | drain =>
    simp only [hpc, if_neg hlate] at h
    split at h
    · cases h
      exact Local.begun_of_passed rfl hin Pc.noConfusion
    · cases h
      exact Local.begun_of_passed rfl hin (by rw [show l.check.pc = l.pc from rfl]; exact hin)
  | resetEnter =>
    simp only [hpc] at h
    cases h
    exact Local.begun_of_passed rfl hin Pc.noConfusion
  | resetPassing | leave =>
    simp only [hpc] at h
    cases h
    exact Local.begun_return hin

/-- `R` rounds are not exceeded. -/
theorem begun_step {R : ℕ} (hpatient : Patient s) (h : ∀ i, (s.locals i).begun ≤ R) {a : Action n}
    (ha : a.InRounds R s) (hs : s' ∈ a.step s) : ∀ i, (s'.locals i).begun ≤ R := by
  cases a with
  | call i timed =>
    cases hs
    refine State.forall_set (fun l => l.begun ≤ R) h ?_
    rw [Local.begun, if_neg Pc.noConfusion]
    exact ha.2.2
  | access i late =>
    obtain ⟨c, l, hadvance, rfl⟩ := Action.access_eq hs
    refine State.forall_set (fun l => l.begun ≤ R) h ?_
    rw [Local.advance_begun (hpatient i) ha.1 hadvance]
    exact h i

/-- A round that is over has ended as it should. -/
theorem Inv.finished (hpos : 0 < n) (h : Inv s)
    (hdone : ∀ i, (s.locals i).pc = .outside ∧ (s.locals i).rounds = 1) : Finished s := by
  have hlast : ∀ {i b}, (s.locals i).passed[0]? = some b → (s.locals i).passed = [b] := by
    intro i b hb
    obtain ⟨b', hb'⟩ := length_eq_one_iff.1 (hdone i).2
    rw [hb'] at hb ⊢
    cases hb
    rfl
  refine ⟨fun i => (hdone i).1, ?_, h.reset fun i => by rw [(hdone i).1]; trivial⟩
  obtain ⟨i, hi, hothers⟩ : ∃ i, (s.locals i).passed[0]? = some true ∧
      ∀ j, j ≠ i → (s.locals j).passed[0]? = some false := by
    obtain ⟨r, hhist, hgather | ⟨leader, hopen⟩⟩ := h
    · refine hhist 0 ?_
      rw [← hgather.rounds ⟨0, hpos⟩, (hdone _).2]
      exact one_pos
    · have hpc := hopen.leader_pc
      rw [(hdone leader).1] at hpc
      exact hpc.elim
  exact ⟨i, hlast hi, fun j hj => hlast (hothers j hj)⟩

/-- A barrier whose counters are zero is as good as new. -/
theorem recovered_zero (hpos : 0 < n) (hn : n < u32Size) : Recovered n ⟨0, 0⟩ := by
  intro as h
  have hsafe : Safe Action.step (fun s => Inv s ∧ Patient s ∧ ∀ i, (s.locals i).begun ≤ 1) as (State.fresh n) := by
    refine safe_of_along (fun a s hs ha => ?_) ⟨inv_fresh, fun _ => rfl, fun _ => zero_le 1⟩ h
    obtain ⟨s', hs', hinv'⟩ := hs.1.step hn ha.1 (hs.2.1.quiet a)
    exact ⟨s', hs', hinv', hs.2.1.step ha.2.1 hs', begun_step hs.2.1 hs.2.2 ha hs'⟩
  refine hsafe.mono fun s hs => ⟨?_, hs.1.finished hpos⟩
  obtain ⟨t, hreaches, hidle, hinv⟩ := hs.1.exists_idle hn hs.2.1 hs.2.2
  exact ⟨t, hreaches, hinv.finished hpos hidle.1⟩

/-! ## Giving up in the second loop -/

/-- The leader `gone` is out, and the others wait for it. -/
structure Headless (gone : Fin n) (s : State n) : Prop where
  out : (s.locals gone).pc = .outside
  pcs : ∀ i, (s.locals i).pc.Early n ∧ ¬ (s.locals i).pc.Elected
  enterCount : s.counters.enterCount = s.inside
  passingCount : s.counters.passingCount = n

variable {r : ℕ} {gone leader : Fin n}
namespace Headless

theorem enterCount_lt (h : Headless gone s) : s.counters.enterCount < n := by
  have hout : ¬ (s.locals gone).pc.Counted := by
    rw [h.out]
    exact id
  exact h.enterCount.trans_lt ((tally_lt (p := fun l : Local => l.pc.Counted) hout).trans_eq (Fintype.card_fin n))

/-- Another participant moves. -/
theorem set (h : Headless gone s) (hi : i ≠ gone) (hpc : l.pc.Early n ∧ ¬ l.pc.Elected)
    (henter : c.enterCount = (s.set i c l).inside) (hpassing : c.passingCount = n) :
    Headless gone (s.set i c l) where
  out := by
    rw [State.set_of_ne s c l hi.symm]
    exact h.out
  pcs := State.forall_set (fun l => l.pc.Early n ∧ ¬ l.pc.Elected) h.pcs hpc
  enterCount := henter
  passingCount := hpassing

theorem move (h : Headless gone s) (hi : i ≠ gone) (hpc : l.pc.Early n ∧ ¬ l.pc.Elected)
    (hcounted : l.pc.Counted ↔ (s.locals i).pc.Counted) : Headless gone (s.set i s.counters l) :=
  h.set hi hpc (h.enterCount.trans (inside_set_of_iff hcounted).symm) h.passingCount

/-- The round never fills. -/
theorem access (hn : n < u32Size) (h : Headless gone s) (hlegal : (s.locals i).pc ≠ .outside)
    (hs : s' ∈ (Action.access i late).step s) : Headless gone s' := by
  obtain ⟨c, l, hadvance, rfl⟩ := Action.access_eq hs
  have hi : i ≠ gone := fun hi => hlegal (hi ▸ h.out)
  have hlt := h.enterCount_lt
  have hload : ∀ {m : Local} {b : Bool}, (s.locals i).pc.Counted → ¬ b = true →
      Headless gone (s.set i s.counters (m.test n b s.counters.enterCount)) := by
    intro m b hcounted hb
    rw [Local.test, if_pos hlt]
    exact h.move hi ⟨hlt, hb⟩ (iff_of_true trivial hcounted)
  obtain ⟨hearly, hnot⟩ := h.pcs i
  unfold Local.advance at hadvance
  rcases hearly.cases with hpc | hpc | hpc | ⟨b, hpc⟩ | ⟨b, current, hpc⟩ | ⟨b, hpc⟩
  · exact absurd hpc hlegal
  · simp only [hpc, h.passingCount] at hadvance
    cases hadvance
    exact h.move hi ⟨trivial, id⟩ (by rw [hpc]; rfl)
  · have hne : ¬ s.counters.passingCount = 0 := h.passingCount.trans_ne (ne_zero_of_lt i.isLt)
    simp only [hpc, if_neg hne] at hadvance
    cases hadvance
    exact h.move hi ⟨trivial, Bool.false_ne_true⟩ (by rw [hpc]; rfl)
  · have hmod : (s.counters.enterCount + 1) % u32Size = s.counters.enterCount + 1 := mod_eq_of_lt (by omega)
    simp only [hpc, hmod, Local.test, if_pos hlt] at hadvance
    cases hadvance
    rw [hpc] at hnot
    refine h.set hi ⟨hlt, hnot⟩ ?_ h.passingCount
    rw [inside_set_add (by rw [hpc]; exact id) (show Pc.Counted (.spin _ _) from trivial), ← h.enterCount]
    rfl
  · have hcounted : (s.locals i).pc.Counted := by
      rw [hpc]
      trivial
    rw [hpc] at hnot
    simp only [hpc] at hadvance
    split_ifs at hadvance with hlate hzero heq
    · cases hadvance
      refine h.set hi ⟨trivial, id⟩ ?_ h.passingCount
      have hsub : (s.set i (s.counters.setEnter (current - 1)) (s.locals i).giveUp).inside + 1 =
        s.inside := inside_set_sub hcounted id
      have henter := h.enterCount
      rw [Counters.setEnter_enterCount]
      omega
    · cases hadvance
      exact h.move hi ⟨trivial, hnot⟩ (iff_of_true trivial hcounted)
    · cases hadvance
      exact hload hcounted hnot
  · rw [hpc] at hnot
    simp only [hpc] at hadvance
    cases hadvance
    exact hload (by rw [hpc]; trivial) hnot

/-- Once everybody has given up, somebody still seems to lead. -/
theorem counters_eq (h : Headless gone s) (hout : ∀ i, (s.locals i).pc = .outside) : s.counters = ⟨0, n⟩ := by
  have hnone : s.inside = 0 := tally_eq_zero.2 fun i => by
    rw [hout i]
    exact id
  exact congrArg₂ Counters.mk (h.enterCount.trans hnone) h.passingCount
end Headless

/-- The leader gives up while the round gathers. -/
theorem Gather.headless (h : Gather r s) (hpc : (s.locals i).pc = .spin true current) :
    Headless i (s.set i (s.counters.setEnter (s.counters.enterCount - 1)) (s.locals i).giveUp) := by
  obtain ⟨hpassing, hone⟩ := h.elected (i := i) (by rw [hpc]; exact id)
  have hleader : (s.locals i).pc.Elected := by
    rw [hpc]
    exact rfl
  refine ⟨by rw [State.set_self]; rfl, fun j => ?_, ?_, hpassing⟩
  · by_cases hj : j = i
    · subst hj
      rw [State.set_self]
      exact ⟨trivial, id⟩
    · rw [State.set_of_ne s _ _ hj]
      exact ⟨h.pcs j, not_of_tally_eq_one (p := fun l : Local => l.pc.Elected) hone hleader hj⟩
  · have hsub : (s.set i (s.counters.setEnter (s.counters.enterCount - 1))
        (s.locals i).giveUp).inside + 1 = s.inside := inside_set_sub (by rw [hpc]; trivial) id
    have henter := h.enterCount
    rw [State.set_counters, Counters.setEnter_enterCount]
    omega

/-! ## Giving up in the loop of the leader -/

/-- The state with the leader back in its loop. -/
def State.ledBy (s : State n) (leader : Fin n) : State n := s.set leader s.counters ((s.locals leader).goto .drain)

/-- The leader has left an open round, which goes on as if it were still there. -/
structure Leaderless (r : ℕ) (leader : Fin n) (s : State n) : Prop where
  out : (s.locals leader).pc = .outside
  several : 1 < n
  history : History r (s.ledBy leader)
  isOpen : Open r leader (s.ledBy leader)

theorem Leaderless.access (hn : n < u32Size) (h : Leaderless r leader s)
    (hlegal : (s.locals i).pc ≠ .outside) (hs : s' ∈ (Action.access i late).step s) :
    Leaderless r leader s' := by
  obtain ⟨c, l, hadvance, rfl⟩ := Action.access_eq hs
  have hi : i ≠ leader := fun hi => hlegal (hi ▸ h.out)
  have hlocal : (s.ledBy leader).locals i = s.locals i := State.set_of_ne s _ _ hi
  have hquiet : (Action.access i late).Quiet (s.ledBy leader) := by
    intro hlate
    rw [hlocal] at hlate
    simp only [hlocal]
    rcases h.isOpen.follows i hi with ⟨-, hstays⟩ | ⟨-, -, haway⟩
    · rw [hlocal] at hstays
      rcases hstays.cases with ⟨current, -, hpc⟩ | hpc | hpc
      · simp only [hpc]
        refine ⟨fun hzero => ?_, fun hfalse => absurd hfalse Bool.false_ne_true⟩
        rw [Local.advance, hpc] at hadvance
        simp only [if_pos hlate, if_pos hzero] at hadvance
        cases hadvance
      · simp only [hpc]
      · simp only [hpc]
    · rw [hlocal] at haway
      rcases haway.cases with hpc | hpc <;> simp only [hpc]
  obtain ⟨c2, l2, hadvance2, hhist, hopen⟩ := h.isOpen.access hn h.history hi (hlocal.symm ▸ hlegal) hquiet
  rw [hlocal] at hadvance2
  cases hadvance.symm.trans hadvance2
  have hcomm : (s.set i c l).ledBy leader = (s.ledBy leader).set i c l := by
    rw [State.ledBy, State.set_of_ne s c l hi.symm]
    exact congrArg (State.mk c) (update_comm hi ..)
  refine ⟨?_, h.several, hcomm ▸ hhist, hcomm ▸ hopen⟩
  rw [State.set_of_ne s c l hi.symm]
  exact h.out

/-- Once everybody has left, the leader is still missed. -/
theorem Leaderless.counters_eq (h : Leaderless r leader s) (hout : ∀ i, (s.locals i).pc = .outside) :
    s.counters = ⟨n, 1⟩ := by
  have hleader : ((s.ledBy leader).locals leader).pc = .drain := by
    rw [State.ledBy, State.set_self]
    rfl
  have henter : s.counters.enterCount = n := by
    have := h.isOpen.enterCount
    rw [if_neg (by rw [hleader]; exact Pc.noConfusion)] at this
    exact this
  have hpassing : s.counters.passingCount = 1 := by
    refine h.isOpen.passingCount.trans (tally_eq_one h.isOpen.leader_rounds fun j hj hr => ?_)
    rcases h.isOpen.follows j hj with ⟨-, hstays⟩ | ⟨hrounds, -, -⟩
    · rw [State.ledBy, State.set_of_ne s _ _ hj, hout j] at hstays
      exact hstays
    · exact absurd (hr.symm.trans hrounds) (succ_ne_self r).symm
  exact congrArg₂ Counters.mk henter hpassing

theorem Open.current_lt (h : Open r leader s) (hpc : (s.locals i).pc = .spin b current) : current < n := by
  by_cases hi : i = leader
  · have hleading := h.leader_pc
    rw [← hi, hpc] at hleading
    exact hleading.2
  · rcases h.follows i hi with ⟨-, hstays⟩ | ⟨-, -, haway⟩
    · rw [hpc] at hstays
      exact hstays.2
    · rw [hpc] at haway
      exact haway.elim

/-- The leader gives up while others are still to leave. -/
theorem Open.leaderless (h : Open r i s) (hhist : History r s) (hpc : (s.locals i).pc = .drain)
    (hne : s.counters.passingCount ≠ 1) : Leaderless r i (s.set i s.counters (s.locals i).giveUp) := by
  have hled : (s.set i s.counters (s.locals i).giveUp).ledBy i =
      s.set i s.counters ((s.locals i).giveUp.goto .drain) := by
    rw [State.ledBy, State.set_self]
    exact congrArg (State.mk s.counters) (update_idem ..)
  have hpos := h.remaining_pos
  have hle : s.counters.passingCount ≤ n := h.passingCount.trans_le (tally_le.trans_eq (Fintype.card_fin n))
  refine ⟨by rw [State.set_self]; rfl, by omega, ?_, ?_⟩
  · rw [hled]
    exact hhist.set rfl
  · rw [hled]
    refine h.move_leader rfl trivial ?_ False.elim
    rw [h.enterCount, hpc]
    rfl

/-! ## The next round -/

/-- Past `enter_count.fetch_add(1)` of the only round. -/
def Local.Past (l : Local) : Prop := l.pc.Counted ∨ l.rounds ≠ 0

instance : DecidablePred Local.Past := fun _ => inferInstanceAs (Decidable (_ ∨ _))

/-- A round without a leader. -/
structure Unled (s : State n) : Prop where
  passed : ∀ i, (s.locals i).rounds = 0 ∨ (s.locals i).pc = .outside ∧ (s.locals i).passed = [false]
  not_elected : ∀ i, ¬ (s.locals i).pc.Elected
  enterCount : s.counters.enterCount ≤ tally Local.Past s.locals
  past : ∀ i, (s.locals i).pc = .leave ∨ (s.locals i).rounds ≠ 0 → ∀ j, (s.locals j).Past
  passingCount : (∀ i, (s.locals i).rounds = 0) → s.counters.passingCount = n

/-- Nobody passes the gate. -/
structure Shut (s : State n) : Prop where
  counters : s.counters = ⟨n, 1⟩
  locals : ∀ i, (s.locals i).rounds = 0 ∧ (s.locals i).pc.Away

variable {a : Action n}
namespace Unled
section
variable (h : Unled s)
include h

theorem past_of_full (hfull : ¬ s.counters.enterCount < n) (j : Fin n) : (s.locals j).Past := by
  by_contra hj
  exact hfull (h.enterCount.trans_lt ((tally_lt hj).trans_eq (Fintype.card_fin n)))

/-- A participant moves within the round. -/
theorem set (hrounds : l.rounds = 0) (hnot : ¬ l.pc.Elected)
    (henter : c.enterCount ≤ tally Local.Past (s.set i c l).locals)
    (hpast : (s.locals i).Past → l.Past) (hleave : l.pc = .leave → ∀ j, (s.locals j).Past)
    (hpassing : c.passingCount = s.counters.passingCount) (hold : (s.locals i).rounds = 0) :
    Unled (s.set i c l) where
  passed := State.forall_set (fun l => l.rounds = 0 ∨ l.pc = .outside ∧ l.passed = [false]) h.passed (.inl hrounds)
  not_elected := State.forall_set (fun l => ¬ l.pc.Elected) h.not_elected hnot
  enterCount := henter
  past j hj := by
    have hall : ∀ k, (s.locals k).Past := by
      by_cases hji : j = i
      · subst hji
        rw [State.set_self] at hj
        exact hleave (hj.resolve_right fun hne => hne hrounds)
      · rw [State.set_of_ne s _ _ hji] at hj
        exact h.past j hj
    exact State.forall_set Local.Past hall (hpast (hall i))
  passingCount hzero := by
    refine hpassing.trans (h.passingCount fun j => ?_)
    by_cases hj : j = i
    · exact hj ▸ hold
    · have := hzero j
      rwa [State.set_of_ne s _ _ hj] at this

/-- …and the counters stay. -/
theorem move (hrounds : l.rounds = 0) (hnot : ¬ l.pc.Elected)
    (hpast : l.Past ↔ (s.locals i).Past) (hleave : l.pc = .leave → ∀ j, (s.locals j).Past)
    (hold : (s.locals i).rounds = 0) : Unled (s.set i s.counters l) :=
  h.set hrounds hnot (h.enterCount.trans_eq (tally_update_of_iff hpast).symm) hpast.2 hleave rfl hold

theorem call (hpc : (s.locals i).pc = .outside) (hrounds : (s.locals i).rounds = 0)
    {timed : Bool} : Unled (s.set i s.counters ((s.locals i).call timed)) := by
  refine h.move hrounds id ?_ (fun hleave => Pc.noConfusion hleave) hrounds
  rw [Local.Past, Local.Past, hpc]
  exact Iff.rfl

/-- The second loop ends only when everybody has come. -/
theorem load (hrounds : l.rounds = 0) (hcounted : (s.locals i).pc.Counted) (hold : (s.locals i).rounds = 0) :
    Unled (s.set i s.counters (l.test n false s.counters.enterCount)) := by
  rw [Local.test]
  by_cases hlt : s.counters.enterCount < n
  · rw [if_pos hlt]
    exact h.move hrounds Bool.false_ne_true (iff_of_true (.inl trivial) (.inl hcounted))
      (fun hleave => Pc.noConfusion hleave) hold
  · rw [if_neg hlt]
    exact h.move hrounds id (iff_of_true (.inl trivial) (.inl hcounted)) (fun _ => h.past_of_full hlt) hold

theorem leave (hpc : (s.locals i).pc = .leave) (hold : (s.locals i).rounds = 0)
    (hc : c.enterCount = s.counters.enterCount) : Unled (s.set i c ((s.locals i).return_ false)) := by
  have hall := h.past i (.inl hpc)
  have hone : ((s.locals i).return_ false).passed = [false] := by
    show (s.locals i).passed ++ [false] = [false]
    rw [length_eq_zero_iff.1 hold, nil_append]
  have hpast : ((s.locals i).return_ false).Past := by
    refine .inr ?_
    rw [Local.rounds, hone]
    exact one_ne_zero
  refine ⟨State.forall_set (fun l => l.rounds = 0 ∨ l.pc = .outside ∧ l.passed = [false]) h.passed
    (.inr ⟨rfl, hone⟩), State.forall_set (fun l => ¬ l.pc.Elected) h.not_elected id, ?_,
    fun _ _ => State.forall_set Local.Past hall hpast, fun hzero => ?_⟩
  · rw [State.set_counters, hc]
    exact h.enterCount.trans_eq (tally_update_of_iff (iff_of_true hpast (hall i))).symm
  · have := hzero i
    rw [State.set_self, Local.rounds, hone] at this
    exact absurd this one_ne_zero

theorem access (hpatient : Patient s) (hlegal : (s.locals i).pc ≠ .outside)
    (hs : s' ∈ (Action.access i late).step s) : Unled s' := by
  obtain ⟨c, l, hadvance, rfl⟩ := Action.access_eq hs
  have hlate : ¬ (s.locals i).isLate late = true := Bool.eq_false_iff.1 (Local.isLate_of_untimed (hpatient i))
  have hrounds : (s.locals i).rounds = 0 := (h.passed i).resolve_right fun hout => hlegal hout.1
  have hnot := h.not_elected i
  unfold Local.advance at hadvance
  cases hpc : (s.locals i).pc with
  | outside => exact absurd hpc hlegal
  | gate =>
    simp only [hpc, if_neg hlate] at hadvance
    split at hadvance
    · cases hadvance
      refine h.move hrounds id ?_ (fun hleave => Pc.noConfusion hleave) hrounds
      rw [Local.Past, Local.Past, hpc]
      exact Iff.rfl
    · cases hadvance
      have hcheck : (s.locals i).check.pc = .gate := hpc
      refine h.move hrounds (by rw [hcheck]; exact id) ?_
        (fun hleave => Pc.noConfusion (hcheck.symm.trans hleave)) hrounds
      rw [Local.Past, Local.Past, hpc, hcheck]
      exact Iff.rfl
  | elect =>
    -- whoever is here has not arrived, so nobody has left
    have hpassing : s.counters.passingCount = n := by
      refine h.passingCount fun j => not_not.1 fun hj => ?_
      have hpast := h.past j (.inr hj) i
      rw [Local.Past, hpc] at hpast
      exact hpast.elim id fun hne => hne hrounds
    simp only [hpc, if_neg (hpassing.trans_ne (ne_zero_of_lt i.isLt))] at hadvance
    cases hadvance
    refine h.move hrounds Bool.false_ne_true ?_ (fun hleave => Pc.noConfusion hleave) hrounds
    rw [Local.Past, Local.Past, hpc]
    exact Iff.rfl
  | arrive b =>
    rw [hpc] at hnot
    have hold : ¬ (s.locals i).Past := by
      rw [Local.Past, hpc]
      exact fun hpast => hpast.elim id fun hne => hne hrounds
    have hlt : s.counters.enterCount < n := h.enterCount.trans_lt ((tally_lt hold).trans_eq (Fintype.card_fin n))
    simp only [hpc, Local.test, if_pos hlt] at hadvance
    cases hadvance
    refine h.set hrounds hnot ?_ (fun _ => .inl trivial) (fun hleave => Pc.noConfusion hleave) rfl hrounds
    have hadd : tally Local.Past (Function.update s.locals i ((s.locals i).goto (.spin b s.counters.enterCount)))
        = tally Local.Past s.locals + 1 := tally_update_add (.inl trivial) hold
    exact (mod_le _ _).trans ((succ_le_succ h.enterCount).trans hadd.ge)
  | spin b current =>
    rw [hpc] at hnot
    cases Bool.eq_false_iff.2 hnot
    simp only [hpc, if_neg hlate] at hadvance
    cases hadvance
    exact h.load hrounds (by rw [hpc]; trivial) hrounds
  | reload b =>
    rw [hpc] at hnot
    cases Bool.eq_false_iff.2 hnot
    simp only [hpc] at hadvance
    cases hadvance
    exact h.load hrounds (by rw [hpc]; trivial) hrounds
  | leave =>
    simp only [hpc] at hadvance
    cases hadvance
    exact h.leave hpc hrounds (Counters.setPassing_enterCount _ _)
  | drain => exact absurd (show Pc.Elected .drain from trivial) (hpc ▸ hnot)
  | resetEnter => exact absurd (show Pc.Elected .resetEnter from trivial) (hpc ▸ hnot)
  | resetPassing => exact absurd (show Pc.Elected .resetPassing from trivial) (hpc ▸ hnot)
end
end Unled

/-- With `passing_count` at the target nobody is elected. -/
theorem not_recovered_headless : ¬ Recovered n ⟨0, n⟩ := by
  intro hrecovered
  obtain ⟨⟨t, ⟨as, halong, ht⟩, -, ⟨i, hi, -⟩, -⟩, -⟩ := hrecovered [] trivial
  have hunled : Unled (State.resting n ⟨0, n⟩) :=
    ⟨fun _ => .inl rfl, fun _ => id, zero_le _, fun _ h => h.elim Pc.noConfusion fun h => absurd rfl h, fun _ => rfl⟩
  have hend : Unled t ∧ Patient t := by
    refine runFrom_of_along (I := fun s => Unled s ∧ Patient s) (fun a s s' hs ha hs' => ?_)
      ⟨hunled, fun _ => rfl⟩ halong ht
    refine ⟨?_, hs.2.step ha.2.1 hs'⟩
    cases a with
    | call i timed =>
      cases hs'
      exact hs.1.call ha.1 (lt_one_iff.1 ha.2.2)
    | access i late => exact hs.1.access hs.2 ha.1 hs'
  rcases hend.1.passed i with hrounds | ⟨-, hpassed⟩
  · rw [Local.rounds, hi] at hrounds
    exact absurd hrounds one_ne_zero
  · rw [hi] at hpassed
    exact absurd (singleton_inj.1 hpassed) Bool.noConfusion

/-- With `passing_count` at one nobody comes in. -/
theorem not_recovered_leaderless (hseveral : 1 < n) : ¬ Recovered n ⟨n, 1⟩ := by
  intro hrecovered
  obtain ⟨⟨t, ⟨as, halong, ht⟩, -, ⟨i, hi, -⟩, -⟩, -⟩ := hrecovered [] trivial
  have hshut : Shut (State.resting n ⟨n, 1⟩) := ⟨rfl, fun _ => ⟨rfl, trivial⟩⟩
  have hend : Shut t ∧ Patient t := by
    refine runFrom_of_along (I := fun s => Shut s ∧ Patient s) (fun a s s' hs ha hs' => ?_)
      ⟨hshut, fun _ => rfl⟩ halong ht
    refine ⟨?_, hs.2.step ha.2.1 hs'⟩
    obtain ⟨hcounters, hlocals⟩ := hs.1
    cases a with
    | call i timed =>
      cases hs'
      exact ⟨hcounters, State.forall_set (fun l => l.rounds = 0 ∧ l.pc.Away) hlocals ⟨(hlocals i).1, trivial⟩⟩
    | access i late =>
      obtain ⟨c, l, hadvance, rfl⟩ := Action.access_eq hs'
      have hlate : ¬ (s.locals i).isLate late = true := Bool.eq_false_iff.1 (Local.isLate_of_untimed (hs.2 i))
      have hpc : (s.locals i).pc = .gate := (hlocals i).2.cases.resolve_left ha.1
      have hshut : ¬ (s.counters.passingCount = n ∨ s.counters.passingCount = 0) := by
        rw [hcounters]
        exact fun h => h.elim hseveral.ne one_ne_zero
      rw [Local.advance, hpc] at hadvance
      simp only [if_neg hshut, if_neg hlate] at hadvance
      cases hadvance
      exact ⟨hcounters, State.forall_set (fun l => l.rounds = 0 ∧ l.pc.Away) hlocals (hlocals i)⟩
  have hrounds := (hend.1.locals i).1
  rw [Local.rounds, hi] at hrounds
  exact absurd hrounds one_ne_zero

/-! ## Recovery -/

/-- An access of a call that has begun. -/
def Action.IsAccess : Action n → Prop
  | call _ _ => False
  | access _ _ => True

/-- A state in which a leader is missing. -/
def Beheaded (s : State n) : Prop := (∃ gone, Headless gone s) ∨ ∃ r leader, Leaderless r leader s

instance : DecidablePred (Action.IsAccess (n := n))
  | .call _ _ => inferInstanceAs (Decidable False)
  | .access _ _ => inferInstanceAs (Decidable True)

variable {as bs : List (Action n)}

theorem Beheaded.step (hn : n < u32Size) (h : Beheaded s) (ha : a.Legal s ∧ a.IsAccess)
    (hs : s' ∈ a.step s) : Beheaded s' := by
  cases a with
  | call i timed => exact ha.2.elim
  | access i late =>
    rcases h with ⟨gone, hheadless⟩ | ⟨r, leader, hleaderless⟩
    · exact .inl ⟨gone, hheadless.access hn ha.1 hs⟩
    · exact .inr ⟨r, leader, hleaderless.access hn ha.1 hs⟩

theorem Beheaded.not_recovered (h : Beheaded s) (hout : ∀ i, (s.locals i).pc = .outside) :
    ¬ Recovered n s.counters := by
  rcases h with ⟨gone, hheadless⟩ | ⟨r, leader, hleaderless⟩
  · rw [hheadless.counters_eq hout]
    exact not_recovered_headless
  · rw [hleaderless.counters_eq hout]
    exact not_recovered_leaderless hleaderless.several

/-- An access that is not quiet panics or loses a leader. -/
theorem Inv.beheaded (h : Inv s) (hnot : ¬ a.Quiet s) (hs : s' ∈ a.step s) : Beheaded s' := by
  cases a with
  | call i timed => exact absurd trivial hnot
  | access i late =>
    obtain ⟨hlate, hnot⟩ := Classical.not_imp.1 hnot
    obtain ⟨c, l, hadvance, rfl⟩ := Action.access_eq hs
    unfold Local.advance at hadvance
    cases hpc : (s.locals i).pc with
    | spin leader current =>
      simp only [hpc, if_pos hlate] at hadvance hnot
      split_ifs at hadvance with hzero heq
      · cases hadvance
        obtain ⟨hleader, -⟩ := Classical.not_imp.1 fun hne => hnot ⟨hzero, hne⟩
        cases hleader
        cases heq
        obtain ⟨r, -, hgather | ⟨leader, hopen⟩⟩ := h
        · exact .inl ⟨i, hgather.headless hpc⟩
        · -- an open round is full, and `current` is not
          have hfull := hopen.enterCount_of_waiting (i := i) (by rw [hpc]; trivial)
          have hlt := hopen.current_lt hpc
          exact absurd hfull hlt.ne
      · exact absurd ⟨hzero, fun _ => heq⟩ hnot
    | drain =>
      simp only [hpc] at hnot
      simp only [hpc, if_neg hnot, if_pos hlate] at hadvance
      cases hadvance
      obtain ⟨r, hhist, hgather | ⟨leader, hopen⟩⟩ := h
      · exact (hpc ▸ hgather.pcs i).elim
      · have hi : i = leader := by
          by_contra hi
          rcases hopen.follows i hi with ⟨-, hstays⟩ | ⟨-, -, haway⟩
          · rw [hpc] at hstays
            exact hstays
          · rw [hpc] at haway
            exact haway
        subst hi
        exact .inr ⟨r, i, hopen.leaderless hhist hpc hnot⟩
    | _ => simp only [hpc, not_true] at hnot

/-- From a state in the rounds: all accesses are quiet if the barrier recovers. -/
theorem Inv.quiet_of_recovered (hn : n < u32Size) (h : Inv s)
    (hbs : Along Action.step (fun a s => a.Legal s ∧ a.IsAccess) bs s)
    {t : State n} (ht : t ∈ runFrom Action.step bs s) (hout : ∀ i, (t.locals i).pc = .outside)
    (hrecovered : Recovered n t.counters) : Along Action.step Action.Quiet bs s := by
  induction bs generalizing s with
  | nil => trivial
  | cons b bs ih =>
    obtain ⟨s', hs', ht⟩ := bind_eq_some_iff.1 ht
    have hquiet : b.Quiet s := by
      by_contra hnot
      have hend : Beheaded t := runFrom_of_along (I := Beheaded)
        (fun a s s' hs ha hs' => hs.step hn ha hs') (h.beheaded hnot hs') (hbs.2 s' hs') ht
      exact hend.not_recovered hout hrecovered
    refine ⟨hquiet, fun s'' hs'' => ?_⟩
    cases mem_unique hs' hs''
    obtain ⟨s'', hs'', hinv⟩ := h.step hn hbs.1.1 hquiet
    cases mem_unique hs' hs''
    exact ih hinv (hbs.2 s' hs') ht

/-- **Recovery**: after any quiet run, let everybody who waits get out.  Nobody panics and the barrier
is as good as new exactly if no leader gives up, and nobody takes one from a count of zero. -/
theorem recovered_iff (hpos : 0 < n) (hn : n < u32Size)
    (has : Along Action.step (fun a s => a.Legal s ∧ a.Quiet s) as (State.fresh n))
    (hs : s ∈ runFrom Action.step as (State.fresh n))
    (hbs : Along Action.step (fun a s => a.Legal s ∧ a.IsAccess) bs s)
    (hout : ∀ t ∈ runFrom Action.step bs s, ∀ i, (t.locals i).pc = .outside) :
    (∃ t ∈ runFrom Action.step bs s, Recovered n t.counters) ↔
      Along Action.step Action.Quiet bs s := by
  have hinv : Inv s := by
    refine runFrom_of_along (fun a s s' hs ha hs' => ?_) inv_fresh has hs
    obtain ⟨s'', hs'', hinv⟩ := hs.step hn ha.1 ha.2
    cases mem_unique hs' hs''
    exact hinv
  constructor
  · rintro ⟨t, ht, hrecovered⟩
    exact hinv.quiet_of_recovered hn hbs ht (hout t ht) hrecovered
  · intro hquiet
    obtain ⟨t, ht, hend⟩ := (safe_of_along (fun a s hs ha => hs.step hn ha.1.1 ha.2) hinv (hbs.and hquiet)).runFrom
    refine ⟨t, ht, ?_⟩
    rw [hend.reset fun i => by rw [hout t ht i]; trivial]
    exact recovered_zero hpos hn

/-- Two timed participants that meet. -/
theorem recovered_iff_pair :
    (∃ t ∈ runFrom Action.step [.access 0 false, .access 0 false, .access 0 false, .access 1 false,
        .access 1 false, .access 1 false, .access 1 false, .access 1 false, .access 0 false,
        .access 0 false, .access 0 false, .access 0 false]
          (((State.fresh 2).set 0 ⟨0, 0⟩ (((State.fresh 2).locals 0).call true)).set 1 ⟨0, 0⟩
            (((State.fresh 2).locals 1).call true)),
        Recovered 2 t.counters) ↔
      Along Action.step Action.Quiet [.access 0 false, .access 0 false, .access 0 false,
        .access 1 false, .access 1 false, .access 1 false, .access 1 false, .access 1 false,
        .access 0 false, .access 0 false, .access 0 false, .access 0 false]
          (((State.fresh 2).set 0 ⟨0, 0⟩ (((State.fresh 2).locals 0).call true)).set 1 ⟨0, 0⟩
            (((State.fresh 2).locals 1).call true)) :=
  have hcalls : Along Action.step (fun a s => a.Legal s ∧ a.Quiet s) [.call 0 true, .call 1 true]
      (State.fresh 2) := ⟨⟨rfl, trivial⟩, fun _ hs => Option.some.inj hs ▸ ⟨⟨rfl, trivial⟩, fun _ _ => trivial⟩⟩
  recovered_iff (by decide) (by decide) hcalls rfl (by decide) (by decide)

/-- The first of two participants waits alone, with `k` checks left before it reads the clock. -/
def lone (k : ℕ) : State 2 where
  counters := ⟨1, 2⟩
  locals i := if i = 0 then { pc := .spin true 1, timed := true, iters := k, passed := [], timeouts := 0 }
    else (State.fresh 2).locals i

/-- It waits for nothing. -/
theorem lone_step (k : ℕ) : (Action.access 0 false).step (lone (k + 1)) = some (lone k) := by
  exact congrArg some (congrArg (State.mk _) (funext (Fin.forall_fin_two.2 ⟨rfl, rfl⟩)))

theorem lone_run (k : ℕ) : runFrom Action.step (List.replicate k (.access 0 false)) (lone k) = some (lone 0) := by
  induction k with
  | zero => rfl
  | succ k ih => rw [replicate_succ, runFrom, lone_step, bind_some, ih]

/-- The only participant of a round for two gives up, and no round has a leader any more. -/
theorem not_recovered_alone :
    ∃ s ∈ runFrom Action.step [.call 0 true, .access 0 false, .access 0 false, .access 0 false,
        .access 0 false] (State.fresh 2),
      ∃ t ∈ runFrom Action.step (List.replicate 9999 (.access 0 false) ++ [.access 0 true]) s,
        (∀ i, (t.locals i).pc = .outside) ∧ ¬ Recovered 2 t.counters := by
  refine ⟨lone 9999, ?_, (lone 0).set 0 ⟨0, 2⟩ ((lone 0).locals 0).giveUp, ?_, by decide, not_recovered_headless⟩
  · exact congrArg some (congrArg (State.mk _) (funext (Fin.forall_fin_two.2 ⟨rfl, rfl⟩)))
  · rw [runFrom_append, lone_run]
    rfl
end Barrier
end WasabiOS
