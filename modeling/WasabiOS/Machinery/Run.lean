import Mathlib.Tactic.Common

/-!
# Machinery/Run — runs of a partial step function

A system takes calls one after another; `step c s` is the state after the call, or nothing if the
system did not survive it.  Three readings of a list of calls from a state:

* `Along step P` — every call that is reached meets `P`,
* `Safe step I` — every call is survived and `I` holds in every state on the way,
* `runFrom step` — the state at the end.

**The invariant rule** `safe_of_along`, and its exact form `safe_iff_along`, reduce whole runs to one
step.
-/

namespace Machinery
open Option List
namespace Run
variable {State Call : Type*} (step : Call → State → Option State) {P Q : Call → State → Prop}
  {cs : List Call} {s : State}

/-- Every call of the run that is reached meets `P` in the state it is made in. -/
def Along (P : Call → State → Prop) : List Call → State → Prop
  | [], _ => True
  | c :: cs, s => P c s ∧ ∀ s' ∈ step c s, Along P cs s'

instance instDecidableAlong [∀ c s, Decidable (P c s)] : ∀ (cs : List Call) (s : State), Decidable (Along step P cs s)
  | [], _ => inferInstanceAs (Decidable True)
  | c :: cs, s =>
    match h : step c s with
    | none => decidable_of_iff (P c s) (by simp [Along, h])
    | some s' =>
      have : Decidable (Along step P cs s') := instDecidableAlong cs s'
      decidable_of_iff (P c s ∧ Along step P cs s') (by simp [Along, h])

/-- Every call of the run is survived, and `I` holds before, between and after the calls. -/
def Safe (I : State → Prop) : List Call → State → Prop
  | [], s => I s
  | c :: cs, s => I s ∧ ∃ s' ∈ step c s, Safe I cs s'

/-- The state at the end of a run. -/
def runFrom : List Call → State → Option State
  | [], s => some s
  | c :: cs, s => (step c s).bind (runFrom cs)

variable {step} {I J : State → Prop}

theorem runFrom_append (cs ds : List Call) (s : State) :
    runFrom step (cs ++ ds) s = (runFrom step cs s).bind (runFrom step ds) := by
  induction cs generalizing s with
  | nil => rfl
  | cons c cs ih =>
    rw [cons_append, runFrom, runFrom, bind_assoc]
    exact congrArg (step c s).bind (funext ih)

theorem along_cons {c : Call} :
    Along step P (c :: cs) s ↔ P c s ∧ ∀ s' ∈ step c s, Along step P cs s' := Iff.rfl

theorem along_of_forall (h : ∀ c s, P c s) : ∀ {cs : List Call} {s : State}, Along step P cs s
  | [], _ => trivial
  | c :: _, s => ⟨h c s, fun _ _ => along_of_forall h⟩

theorem Along.and : ∀ {cs : List Call} {s : State}, Along step P cs s → Along step Q cs s →
    Along step (fun c s => P c s ∧ Q c s) cs s
  | [], _, _, _ => trivial
  | _ :: _, _, hp, hq => ⟨⟨hp.1, hq.1⟩, fun s' hs => Along.and (hp.2 s' hs) (hq.2 s' hs)⟩

theorem Safe.init (h : Safe step I cs s) : I s := by
  cases cs with
  | nil => exact h
  | cons c cs => exact h.1

theorem Safe.mono (h : ∀ s, I s → J s) : ∀ {cs : List Call} {s : State}, Safe step I cs s → Safe step J cs s
  | [], s, hi => h s hi
  | _ :: _, s, ⟨hi, s', hs, hr⟩ => ⟨h s hi, s', hs, Safe.mono h hr⟩

/-- A safe run ends, in a state that satisfies the invariant. -/
theorem Safe.runFrom : ∀ {cs : List Call} {s : State}, Safe step I cs s → ∃ s' ∈ Run.runFrom step cs s, I s'
  | [], s, hi => ⟨s, rfl, hi⟩
  | _ :: _, _, ⟨_, _, hs, hr⟩ => by
    obtain ⟨t, ht, hi⟩ := Safe.runFrom hr
    exact ⟨t, by rw [Run.runFrom, mem_def.1 hs]; exact ht, hi⟩

/-- **The invariant rule**: what one step preserves, a run preserves. -/
theorem safe_of_along (hstep : ∀ c s, I s → P c s → ∃ s' ∈ step c s, I s') :
    ∀ {cs : List Call} {s : State}, I s → Along step P cs s → Safe step I cs s
  | [], _, hi, _ => hi
  | c :: _, s, hi, hp => by
    obtain ⟨s', hs, hi'⟩ := hstep c s hi hp.1
    exact ⟨hi, s', hs, safe_of_along hstep hi' (hp.2 s' hs)⟩

/-- **The invariant rule** for runs that may break off: what one step preserves holds at the end. -/
theorem runFrom_of_along (hstep : ∀ c s s', I s → P c s → s' ∈ step c s → I s') :
    ∀ {cs : List Call} {s t : State}, I s → Along step P cs s → t ∈ Run.runFrom step cs s → I t
  | [], _, _, hi, _, ht => Option.some.inj ht ▸ hi
  | c :: _, s, _, hi, hp, ht => by
    obtain ⟨s', hs, ht⟩ := bind_eq_some_iff.1 ht
    exact runFrom_of_along hstep (hstep c s s' hi hp.1 hs) (hp.2 s' hs) ht

/-- **Runs end**: a run whose calls all decrease a measure is no longer than the measure at its start. -/
theorem length_add_le_of_along {μ : State → ℕ} (hstep : ∀ c s s', I s → P c s → s' ∈ step c s → I s' ∧ μ s' < μ s) :
    ∀ {cs : List Call} {s t : State}, I s → Along step P cs s → t ∈ Run.runFrom step cs s → cs.length + μ t ≤ μ s
  | [], s, t, _, _, ht => by
    cases Option.some.inj ht
    exact Nat.le_of_eq (Nat.zero_add _)
  | c :: cs, s, t, hi, hp, ht => by
    obtain ⟨s', hs, ht⟩ := bind_eq_some_iff.1 ht
    obtain ⟨hi', hlt⟩ := hstep c s s' hi hp.1 hs
    have hle := length_add_le_of_along hstep hi' (hp.2 s' hs) ht
    rw [length_cons]
    omega

/-- **What holds of each call**: if in a state of the invariant a call that meets `P` meets `Q` and keeps
the invariant, then a run along `P` is one along `Q`. -/
theorem along_of_invariant (hstep : ∀ c s, I s → P c s → Q c s ∧ ∀ s' ∈ step c s, I s') :
    ∀ {cs : List Call} {s : State}, I s → Along step P cs s → Along step Q cs s
  | [], _, _, _ => trivial
  | c :: _, s, hi, hp => by
    obtain ⟨hq, hnext⟩ := hstep c s hi hp.1
    exact ⟨hq, fun s' hs => along_of_invariant hstep (hnext s' hs) (hp.2 s' hs)⟩

/-- **Two readings of a run** agree if they do on each call in a state of the invariant, which the calls
that meet them keep. -/
theorem along_iff_of_invariant (hiff : ∀ c s, I s → (P c s ↔ Q c s))
    (hkeep : ∀ c s, I s → P c s → ∀ s' ∈ step c s, I s') (hi : I s) :
    Along step P cs s ↔ Along step Q cs s :=
  ⟨along_of_invariant (fun c s hi hp => ⟨(hiff c s hi).1 hp, hkeep c s hi hp⟩) hi,
    along_of_invariant (fun c s hi hq => ⟨(hiff c s hi).2 hq, hkeep c s hi ((hiff c s hi).2 hq)⟩) hi⟩

/-- **The exact rule**: if, in the states of an invariant `I` that implies `J`, exactly the calls that
meet `Q` lead to `J`, and those keep `I`, then of the runs along `P` exactly those along `Q` stay in
`J`. -/
theorem safe_iff_along_of_invariant (hIJ : ∀ s, I s → J s)
    (hstep : ∀ c s, I s → P c s → ((∃ s' ∈ step c s, J s') ↔ Q c s))
    (hkeep : ∀ c s s', I s → P c s → Q c s → s' ∈ step c s → I s') :
    ∀ {cs : List Call} {s : State}, I s → Along step P cs s → (Safe step J cs s ↔ Along step Q cs s)
  | [], s, hi, _ => iff_of_true (hIJ s hi) trivial
  | c :: _, s, hi, hp => by
    constructor
    · rintro ⟨_, s', hs, hr⟩
      have hq : Q c s := (hstep c s hi hp.1).1 ⟨s', hs, hr.init⟩
      refine ⟨hq, fun t ht => ?_⟩
      cases mem_unique hs ht
      exact (safe_iff_along_of_invariant hIJ hstep hkeep (hkeep c s s' hi hp.1 hq hs) (hp.2 s' hs)).1 hr
    · rintro ⟨hq, hr⟩
      obtain ⟨s', hs, -⟩ := (hstep c s hi hp.1).2 hq
      exact ⟨hIJ s hi, s', hs, (safe_iff_along_of_invariant hIJ hstep hkeep
        (hkeep c s s' hi hp.1 hq hs) (hp.2 s' hs)).2 (hr s' hs)⟩

/-- **The exact invariant rule**: if, of the calls that meet `P`, exactly those that meet `Q` keep
the invariant, then of the runs along `P` exactly those along `Q` are safe. -/
theorem safe_iff_along (hstep : ∀ c s, I s → P c s → ((∃ s' ∈ step c s, I s') ↔ Q c s))
     (hi : I s) (hp : Along step P cs s) :
    Safe step I cs s ↔ Along step Q cs s := by
  refine safe_iff_along_of_invariant (fun _ h => h) hstep (fun c s s' hi hp hq hs => ?_) hi hp
  obtain ⟨t, ht, hi'⟩ := (hstep c s hi hp).2 hq
  cases mem_unique hs ht
  exact hi'

/-! ## Two states of one run -/

variable {D : State → State → Prop}
variable (step) in
/-- `D` relates every state the run reaches to every state it reaches from there. -/
def Between (D : State → State → Prop) (cs : List Call) (s : State) : Prop :=
  ∀ c1 c2 c3, cs = c1 ++ (c2 ++ c3) → ∀ s1 ∈ runFrom step c1 s, ∀ s2 ∈ runFrom step c2 s1, D s1 s2

theorem Along.append_iff {ds : List Call} :
    Along step P (cs ++ ds) s ↔ Along step P cs s ∧ ∀ t ∈ Run.runFrom step cs s, Along step P ds t := by
  induction cs generalizing s with
  | nil => refine ⟨fun h => ⟨trivial, fun t ht => Option.some.inj ht ▸ h⟩, fun h => h.2 s rfl⟩
  | cons c cs ih =>
    rw [cons_append, along_cons, along_cons, and_assoc]
    refine and_congr_right fun _ => ⟨fun h => ⟨fun s' hs => (ih.1 (h s' hs)).1, fun t ht => ?_⟩, fun h s' hs => ?_⟩
    · obtain ⟨s', hs, ht⟩ := bind_eq_some_iff.1 ht
      exact (ih.1 (h s' hs)).2 t ht
    · refine ih.2 ⟨h.1 s' hs, fun t ht => h.2 t ?_⟩
      exact bind_eq_some_iff.2 ⟨s', hs, ht⟩

/-- **The invariant rule for two states**: what holds of any two states of an invariant holds of two states of a
run. -/
theorem between_of_along (hD : ∀ s t, I s → I t → D s t) (hstep : ∀ c s s', I s → P c s → s' ∈ step c s → I s')
     (hi : I s) (hp : Along step P cs s) : Between step D cs s := by
  rintro c1 c2 c3 rfl s1 hs1 s2 hs2
  obtain ⟨hp1, hrest⟩ := Along.append_iff.1 hp
  have hi1 : I s1 := runFrom_of_along hstep hi hp1 hs1
  exact hD s1 s2 hi1 (runFrom_of_along hstep hi1 (Along.append_iff.1 (hrest s1 hs1)).1 hs2)
end Run

/-! ## Iterators -/

/-- Calling `next` until there is nothing left gives these elements. -/
inductive Yields {State ε α : Type*} (next : State → Except ε (Option (α × State))) : State → List α → Prop
  | done : next s = .ok none → Yields next s []
  | more : next s = .ok (some (a, s')) → Yields next s' l → Yields next s (a :: l)

theorem Yields.congr {State ε α : Type*} {next : State → Except ε (Option (α × State))} {s s' : State} {l : List α}
    (h : Yields next s l) (heq : next s' = next s) : Yields next s' l := by
  cases h with
  | done hnext => exact .done (heq.trans hnext)
  | more hnext hrest => exact .more (heq.trans hnext) hrest
end Machinery
