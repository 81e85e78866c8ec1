import Mathlib.Tactic.Common

/-!
# Machinery/Prog — stateful programs that return, fail, or fault

A program run on a state ends in one of three ways: it **returns** a value, it returns an **error**
(both leave a state behind), or it **faults** — a panic, an undefined operation, a loop that never
ends — and then nothing is left.  `Prog σ ε α` is that, as a monad; `?`-propagation is its bind.

The rules are weakest preconditions, one equation per combinator: `wlp` is the liberal one (a fault
is nobody's promise) and `wp` the total one (no fault happens).  `Prog.zoom` runs a program of a part
of the state.
-/

namespace Machinery

/-- How a run is cut short. -/
inductive Fault where
  /-- an assertion, an `unwrap`, an arithmetic overflow -/
  | panic
  /-- an operation whose contract is broken, e.g. a dangling pointer read -/
  | undefined
  /-- a loop that does not end -/
  | diverge
  deriving DecidableEq, Repr

/-- A computation without state: a value or a fault. -/
abbrev Checked (α : Type) := Except Fault α

theorem Checked.bind_eq_ok {α β : Type} {c : Checked α} {f : α → Checked β} {b : β} :
    (c >>= f) = .ok b ↔ ∃ a, c = .ok a ∧ f a = .ok b := by
  cases c with
  | ok a => exact ⟨fun h => ⟨a, rfl, h⟩, fun ⟨_, h, hb⟩ => by cases h; exact hb⟩
  | error f => exact ⟨nofun, fun ⟨_, h, _⟩ => by cases h⟩

@[simp] theorem Checked.ok_bind {α β : Type} (a : α) (f : α → Checked β) : ((.ok a : Checked α) >>= f) = f a := rfl

theorem Checked.pure_eq_ok {α : Type} {a b : α} : (pure a : Checked α) = .ok b ↔ a = b := ⟨Except.ok.inj, congrArg _⟩

/-- The end of a run. -/
inductive Outcome (σ ε α : Type) where
  | ok (a : α) (s : σ)
  | err (e : ε) (s : σ)
  | fault (f : Fault)

/-- A program with state `σ`, errors `ε` and results `α`. -/
def Prog (σ ε α : Type) := σ → Outcome σ ε α

variable {σ τ ε ε' α β : Type}
namespace Outcome
variable {Q : α → σ → Prop} {E : ε → σ → Prop}

/-- The value and error a run ends in satisfy `Q` and `E`; a fault satisfies anything. -/
def All (Q : α → σ → Prop) (E : ε → σ → Prop) : Outcome σ ε α → Prop
  | ok a s => Q a s
  | err e s => E e s
  | fault _ => True

@[simp] theorem all_ok {a : α} {s : σ} : (ok a s : Outcome σ ε α).All Q E ↔ Q a s := Iff.rfl

@[simp] theorem all_err {e : ε} {s : σ} : (err e s : Outcome σ ε α).All Q E ↔ E e s := Iff.rfl

@[simp] theorem all_fault {f : Fault} : (fault f : Outcome σ ε α).All Q E ↔ True := Iff.rfl

theorem All.mono {Q' : α → σ → Prop} {E' : ε → σ → Prop} (hQ : ∀ a s, Q a s → Q' a s)
    (hE : ∀ e s, E e s → E' e s) : ∀ {o : Outcome σ ε α}, o.All Q E → o.All Q' E'
  | ok a s, h => hQ a s h
  | err e s, h => hE e s h
  | fault _, _ => trivial

/-- The run does not fault, and its value and error satisfy `Q` and `E`. -/
def Ends (Q : α → σ → Prop) (E : ε → σ → Prop) : Outcome σ ε α → Prop
  | ok a s => Q a s
  | err e s => E e s
  | fault _ => False

@[simp] theorem ends_ok {a : α} {s : σ} : (ok a s : Outcome σ ε α).Ends Q E ↔ Q a s := Iff.rfl

@[simp] theorem ends_err {e : ε} {s : σ} : (err e s : Outcome σ ε α).Ends Q E ↔ E e s := Iff.rfl

@[simp] theorem ends_fault {f : Fault} : (fault f : Outcome σ ε α).Ends Q E ↔ False := Iff.rfl

/-- The run returns in `Q`, fails in `E`, or faults and `F` holds. -/
def Meets (Q : α → σ → Prop) (E : ε → σ → Prop) (F : Prop) : Outcome σ ε α → Prop
  | ok a s => Q a s
  | err e s => E e s
  | fault _ => F

@[simp] theorem meets_ok {F : Prop} {a : α} {s : σ} : (ok a s : Outcome σ ε α).Meets Q E F ↔ Q a s := Iff.rfl

@[simp] theorem meets_err {F : Prop} {e : ε} {s : σ} : (err e s : Outcome σ ε α).Meets Q E F ↔ E e s := Iff.rfl

@[simp] theorem meets_fault {F : Prop} {f : Fault} : (fault f : Outcome σ ε α).Meets Q E F ↔ F := Iff.rfl

/-- Continue a run from its value. -/
def andThen (o : Outcome σ ε α) (f : α → Prog σ ε β) : Outcome σ ε β :=
  match o with
  | ok a s => f a s
  | err e s => err e s
  | fault φ => fault φ

@[simp] theorem andThen_ok (a : α) (s : σ) (f : α → Prog σ ε β) : (ok a s : Outcome σ ε α).andThen f = f a s := rfl

@[simp] theorem andThen_err (e : ε) (s : σ) (f : α → Prog σ ε β) : (err e s : Outcome σ ε α).andThen f = err e s := rfl

@[simp] theorem andThen_fault (φ : Fault) (f : α → Prog σ ε β) : (fault φ : Outcome σ ε α).andThen f = fault φ := rfl

/-- The state a run leaves behind, if it leaves one. -/
def state? : Outcome σ ε α → Option σ
  | ok _ s => some s
  | err _ s => some s
  | fault _ => none
end Outcome

namespace Prog
variable {m : Prog σ ε α} {s s' : σ} {a : α} {view : σ → τ} {set : τ → σ → σ} {g : ε → ε'} {c : Checked α}
  {P : σ → Prop}

instance : Monad (Prog σ ε) where
  pure a := fun s => .ok a s
  bind m f := fun s => (m s).andThen f

/-- Fail with an error; the state stays. -/
def throw (e : ε) : Prog σ ε α := fun s => .err e s

/-- Fault. -/
def crash (f : Fault) : Prog σ ε α := fun _ => .fault f

/-- `panic!`. -/
def panic : Prog σ ε α := crash .panic

/-- Read the state. -/
def get : Prog σ ε σ := fun s => .ok s s

/-- Overwrite the state. -/
def put (s : σ) : Prog σ ε Unit := fun _ => .ok () s

/-- Update the state. -/
def modify (f : σ → σ) : Prog σ ε Unit := fun s => .ok () (f s)

/-- `assert!`. -/
def assert (b : Bool) : Prog σ ε Unit := if b then pure () else panic

/-- A stateless computation, as a program. -/
def lift (c : Checked α) : Prog σ ε α :=
  match c with
  | .ok a => pure a
  | .error f => crash f

/-- A computation that returns its next state, as a program. -/
def stateful (c : σ → Checked (α × σ)) : Prog σ ε α := fun s =>
  match c s with
  | .ok (a, s') => .ok a s'
  | .error f => .fault f

/-- `expect`. -/
def expect (o : Option α) : Prog σ ε α :=
  match o with
  | some a => pure a
  | none => panic

/-- Return a `Result` as it is: `?`. -/
def ofExcept (r : Except ε α) : Prog σ ε α :=
  match r with
  | .ok a => pure a
  | .error e => throw e

/-- Run a program of a part of the state. -/
def zoom (view : σ → τ) (set : τ → σ → σ) (m : Prog τ ε α) : Prog σ ε α := fun s =>
  match m (view s) with
  | .ok a t => .ok a (set t s)
  | .err e t => .err e (set t s)
  | .fault f => .fault f

/-- `map_err`. -/
def mapErr (g : ε → ε') (m : Prog σ ε α) : Prog σ ε' α := fun s =>
  match m s with
  | .ok a s => .ok a s
  | .err e s => .err (g e) s
  | .fault f => .fault f

/-- Keep the `Result` as a value instead of propagating its error. -/
def attempt (m : Prog σ ε α) : Prog σ ε' (Except ε α) := fun s =>
  match m s with
  | .ok a s => .ok (.ok a) s
  | .err e s => .ok (.error e) s
  | .fault f => .fault f

/-- `for i in l { body(i) }` -/
def forEach {ι : Type} (body : ι → Prog σ ε Unit) : List ι → Prog σ ε Unit
  | [] => pure ()
  | i :: l => do
    body i
    forEach body l

/-! ## Running the combinators -/

@[simp] theorem pure_apply (a : α) (s : σ) : (pure a : Prog σ ε α) s = .ok a s := rfl

@[simp] theorem bind_apply (m : Prog σ ε α) (f : α → Prog σ ε β) (s : σ) : (m >>= f) s = (m s).andThen f := rfl

@[simp] theorem map_apply (f : α → β) (m : Prog σ ε α) (s : σ) : (f <$> m) s = (m s).andThen fun a => pure (f a) := rfl

theorem andThen_pure_eq_fault {o : Outcome σ ε α} {f : α → β} {φ : Fault} :
    (o.andThen fun a => (pure (f a) : Prog σ ε β)) = .fault φ ↔ o = .fault φ := by
  cases o with
  | ok a s => exact iff_of_false nofun nofun
  | err e s => exact iff_of_false nofun nofun
  | fault φ' => exact ⟨fun h => by cases h; rfl, fun h => by cases h; rfl⟩

@[simp] theorem throw_apply (e : ε) (s : σ) : (throw e : Prog σ ε α) s = .err e s := rfl

@[simp] theorem crash_apply (f : Fault) (s : σ) : (crash f : Prog σ ε α) s = .fault f := rfl

@[simp] theorem panic_apply (s : σ) : (panic : Prog σ ε α) s = .fault .panic := rfl

@[simp] theorem get_apply (s : σ) : (get : Prog σ ε σ) s = .ok s s := rfl

@[simp] theorem put_apply (t s : σ) : (put t : Prog σ ε Unit) s = .ok () t := rfl

@[simp] theorem modify_apply (f : σ → σ) (s : σ) : (modify f : Prog σ ε Unit) s = .ok () (f s) := rfl

@[simp] theorem assert_true : (assert true : Prog σ ε Unit) = pure () := rfl

@[simp] theorem assert_false : (assert false : Prog σ ε Unit) = panic := rfl

@[simp] theorem lift_ok (a : α) : (lift (.ok a) : Prog σ ε α) = pure a := rfl

@[simp] theorem lift_error (f : Fault) : (lift (.error f) : Prog σ ε α) = crash f := rfl

@[simp] theorem expect_some (a : α) : (expect (some a) : Prog σ ε α) = pure a := rfl

@[simp] theorem expect_none : (expect none : Prog σ ε α) = panic := rfl

@[simp] theorem ofExcept_ok (a : α) : (ofExcept (.ok a) : Prog σ ε α) = pure a := rfl

theorem stateful_eq_ok {c : σ → Checked (α × σ)} : (stateful c : Prog σ ε α) s = .ok a s' ↔ c s = .ok (a, s') := by
  unfold stateful
  rcases c s with f | ⟨b, t⟩
  · simp
  · simp

theorem zoom_ok {m : Prog τ ε α} {t : τ}
    (h : m (view s) = .ok a t) : zoom view set m s = .ok a (set t s) := by simp only [zoom, h]

theorem zoom_err {m : Prog τ ε α} {e : ε} {t : τ}
    (h : m (view s) = .err e t) : zoom view set m s = .err e (set t s) := by simp only [zoom, h]

theorem zoom_fault {m : Prog τ ε α} {f : Fault}
    (h : m (view s) = .fault f) : zoom view set m s = .fault f := by simp only [zoom, h]

theorem mapErr_ok (h : m s = .ok a s') : mapErr g m s = .ok a s' := by simp only [mapErr, h]

theorem mapErr_err {e : ε} (h : m s = .err e s') : mapErr g m s = .err (g e) s' := by simp only [mapErr, h]

theorem mapErr_fault {f : Fault} (h : m s = .fault f) : mapErr g m s = .fault f := by simp only [mapErr, h]

theorem attempt_ok (h : m s = .ok a s') : (attempt m : Prog σ ε' _) s = .ok (.ok a) s' := by simp only [attempt, h]

theorem attempt_err {e : ε} (h : m s = .err e s') :
    (attempt m : Prog σ ε' _) s = .ok (.error e) s' := by simp only [attempt, h]

theorem attempt_fault {f : Fault} (h : m s = .fault f) :
    (attempt m : Prog σ ε' _) s = .fault f := by simp only [attempt, h]

/-- A run of a sequence that returns comes from runs of its parts that return. -/
theorem bind_ok_iff {f : α → Prog σ ε β} {s'' : σ} {b : β} :
    (m >>= f) s = .ok b s'' ↔ ∃ a s', m s = .ok a s' ∧ f a s' = .ok b s'' := by
  rw [bind_apply]
  constructor
  · intro h
    cases hm : m s with
    | ok a s' => exact ⟨a, s', rfl, by simpa [hm] using h⟩
    | err e s' => simp [hm] at h
    | fault φ => simp [hm] at h
  · rintro ⟨a, s', hm, hf⟩
    simp [hm, hf]

theorem zoom_eq_ok {m : Prog τ ε α} : zoom view set m s = .ok a s' ↔ ∃ t, m (view s) = .ok a t ∧ s' = set t s := by
  unfold zoom
  cases m (view s) with
  | ok b t => simp [eq_comm]
  | err e t => simp
  | fault f => simp

theorem lift_eq_ok : (lift c : Prog σ ε α) s = .ok a s' ↔ c = .ok a ∧ s' = s := by
  cases c with
  | ok b => simp [eq_comm]
  | error f => simp

theorem expect_eq_ok {o : Option α} : (expect o : Prog σ ε α) s = .ok a s' ↔ o = some a ∧ s' = s := by
  cases o with
  | none => simp
  | some b => simp [eq_comm]

theorem assert_eq_ok {b : Bool} {u : Unit} : (assert b : Prog σ ε Unit) s = .ok u s' ↔ b = true ∧ s' = s := by
  cases b with
  | false => simp
  | true => simp [eq_comm]

instance : LawfulMonad (Prog σ ε) := LawfulMonad.mk' (Prog σ ε) (fun m => by
    funext s
    change (m s).andThen (fun a => pure a) = m s
    cases m s <;> rfl)
  (fun _ _ => rfl)
  (fun m f g => by
    funext s
    change ((m s).andThen f).andThen g = (m s).andThen fun a s' => (f a s').andThen g
    cases m s <;> rfl)

variable {ι κ : Type} {body : ι → Prog σ ε Unit}

theorem forEach_cons (i : ι) (l : List ι) : forEach body (i :: l) = body i >>= fun _ => forEach body l := rfl

theorem forEach_append (l1 l2 : List ι) : forEach body (l1 ++ l2) = forEach body l1 >>= fun _ => forEach body l2 := by
  induction l1 with
  | nil => exact (pure_bind _ _).symm
  | cons i l1 ih => rw [List.cons_append, forEach_cons, forEach_cons, ih, bind_assoc]

theorem forEach_flatMap (g : κ → List ι) (l : List κ) :
    forEach body (l.flatMap g) = forEach (fun k => forEach body (g k)) l := by
  induction l with
  | nil => rfl
  | cons k l ih => rw [List.flatMap_cons, forEach_append, forEach_cons, ih]

/-- A loop does not end well if one of its rounds cannot. -/
theorem forEach_ne_ok {i : ι} (hi : ∀ s s', body i s ≠ .ok () s') {l : List ι} (hl : i ∈ l) (s s' : σ) :
    forEach body l s ≠ .ok () s' := by
  induction l generalizing s with
  | nil => exact absurd hl List.not_mem_nil
  | cons j l ih =>
    rw [forEach_cons, bind_apply]
    cases hj : body j s with
    | err e t => exact nofun
    | fault f => exact nofun
    | ok u t =>
      rcases List.mem_cons.1 hl with rfl | hl
      · exact absurd hj (hi s t)
      · exact ih hl t

theorem forEach_singleton (i : ι) : forEach body [i] = body i := bind_pure (body i)

/-! ## Weakest liberal preconditions -/

/-- **The weakest liberal precondition**: started in `s`, a run that returns ends in `Q`, and one
that fails ends in `E`. -/
def wlp (m : Prog σ ε α) (Q : α → σ → Prop) (E : ε → σ → Prop) (s : σ) : Prop := (m s).All Q E

variable {Q Q' : α → σ → Prop} {E E' : ε → σ → Prop} {s : σ}

theorem wlp_mono (h : m.wlp Q E s) (hQ : ∀ a s, Q a s → Q' a s) (hE : ∀ e s, E e s → E' e s) : m.wlp Q' E' s :=
  Outcome.All.mono hQ hE h

theorem wlp_of_forall (hQ : ∀ a s', Q a s') (hE : ∀ e s', E e s') : m.wlp Q E s := by
  unfold wlp
  cases m s with
  | ok a s' => exact hQ a s'
  | err e s' => exact hE e s'
  | fault f => exact trivial

theorem wlp_of_ok (h : m s = .ok a s') : m.wlp Q E s ↔ Q a s' := by simp only [wlp, h, Outcome.all_ok]

@[simp] theorem wlp_pure (a : α) : (pure a : Prog σ ε α).wlp Q E s ↔ Q a s := Iff.rfl

@[simp] theorem wlp_bind (m : Prog σ ε α) (f : α → Prog σ ε β) {Q : β → σ → Prop} :
    (m >>= f).wlp Q E s ↔ m.wlp (fun a s' => (f a).wlp Q E s') E s := by
  unfold wlp
  rw [bind_apply]
  cases m s <;> rfl

@[simp] theorem wlp_crash (f : Fault) : (crash f : Prog σ ε α).wlp Q E s ↔ True := Iff.rfl

@[simp] theorem wlp_panic : (panic : Prog σ ε α).wlp Q E s ↔ True := Iff.rfl

@[simp] theorem wlp_get {Q : σ → σ → Prop} : (get : Prog σ ε σ).wlp Q E s ↔ Q s s := Iff.rfl

@[simp] theorem wlp_put {t : σ} {Q : Unit → σ → Prop} : (put t : Prog σ ε Unit).wlp Q E s ↔ Q () t := Iff.rfl

@[simp] theorem wlp_modify {f : σ → σ} {Q : Unit → σ → Prop} :
    (modify f : Prog σ ε Unit).wlp Q E s ↔ Q () (f s) := Iff.rfl

@[simp] theorem wlp_assert {b : Bool} {Q : Unit → σ → Prop} :
    (assert b : Prog σ ε Unit).wlp Q E s ↔ (b = true → Q () s) := by
  cases b <;> simp

@[simp] theorem wlp_lift : (lift c : Prog σ ε α).wlp Q E s ↔ ∀ a, c = .ok a → Q a s := by
  cases c with
  | ok a => simp
  | error f => simp

theorem wlp_stateful {c : σ → Checked (α × σ)} :
    (stateful c : Prog σ ε α).wlp Q E s ↔ ∀ a s', c s = .ok (a, s') → Q a s' := by
  unfold wlp stateful
  rcases c s with f | ⟨b, t⟩
  · simp
  · simp

theorem wlp_zoom {m : Prog τ ε α} : (zoom view set m).wlp Q E s ↔
      m.wlp (fun a t => Q a (set t s)) (fun e t => E e (set t s)) (view s) := by
  unfold wlp zoom
  cases m (view s) <;> rfl

theorem wlp_mapErr {E : ε' → σ → Prop} : (mapErr g m).wlp Q E s ↔ m.wlp Q (fun e => E (g e)) s := by
  unfold wlp mapErr
  cases m s <;> rfl

theorem wlp_attempt {Q : Except ε α → σ → Prop} {E : ε' → σ → Prop} : (attempt m : Prog σ ε' _).wlp Q E s ↔
      m.wlp (fun a => Q (.ok a)) (fun e => Q (.error e)) s := by
  unfold wlp attempt
  cases m s <;> rfl

/-- What holds at both ends holds in the state that is left behind, if one is. -/
theorem wlp_state (h : m.wlp (fun _ => P) (fun _ => P) s) {s' : σ} (hs : s' ∈ (m s).state?) : P s' := by
  unfold wlp at h
  cases hm : m s with
  | ok a t =>
    rw [hm] at h hs
    exact Option.some.inj hs ▸ h
  | err e t =>
    rw [hm] at h hs
    exact Option.some.inj hs ▸ h
  | fault f =>
    rw [hm] at hs
    cases hs

/-! ## Weakest preconditions -/

/-- **The weakest precondition**: a run from `s` does not fault; it returns in `Q` or fails in
`E`. -/
def wp (m : Prog σ ε α) (Q : α → σ → Prop) (E : ε → σ → Prop) (s : σ) : Prop := (m s).Ends Q E

theorem wp_mono (h : m.wp Q E s) (hQ : ∀ a s, Q a s → Q' a s) (hE : ∀ e s, E e s → E' e s) : m.wp Q' E' s := by
  unfold wp at h ⊢
  cases hm : m s with
  | ok a s' => exact hQ a s' (by simpa [hm] using h)
  | err e s' => exact hE e s' (by simpa [hm] using h)
  | fault f => simp [hm] at h

/-- A run that does not fault meets its liberal specification. -/
theorem wp_of_wlp (h : m.wlp Q E s) (hno : m.wp (fun _ _ => True) (fun _ _ => True) s) : m.wp Q E s := by
  unfold wlp at h
  unfold wp at hno ⊢
  cases hm : m s with
  | ok a s' => simpa [hm] using h
  | err e s' => simpa [hm] using h
  | fault f => simp [hm] at hno

theorem wlp_of_wp (h : m.wp Q E s) : m.wlp Q E s := by
  unfold wp at h
  unfold wlp
  cases hm : m s with
  | ok a s' => simpa [hm] using h
  | err e s' => simpa [hm] using h
  | fault f => trivial

/-- A run that must not fail returns. -/
theorem wp_false_iff : m.wp Q (fun _ _ => False) s ↔ ∃ a s', m s = .ok a s' ∧ Q a s' := by
  unfold wp
  cases m s with
  | ok a s' => simp
  | err e s' => simp
  | fault f => simp

theorem wp_of_ok (h : m s = .ok a s') : m.wp Q E s ↔ Q a s' := by simp only [wp, h, Outcome.ends_ok]

theorem wp_of_err {e : ε} (h : m s = .err e s') : m.wp Q E s ↔ E e s' := by simp only [wp, h, Outcome.ends_err]

/-- A run that does not fault leaves a state behind. -/
theorem exists_state (h : m.wp (fun _ => P) (fun _ => P) s) : ∃ s' ∈ (m s).state?, P s' := by
  unfold wp at h
  cases hm : m s with
  | ok a t =>
    rw [hm] at h
    exact ⟨t, rfl, h⟩
  | err e t =>
    rw [hm] at h
    exact ⟨t, rfl, h⟩
  | fault f =>
    rw [hm] at h
    exact h.elim

/-- What holds at both ends holds in the state that is left behind. -/
theorem wp_state (h : m.wp (fun _ => P) (fun _ => P) s) {s' : σ} (hs : s' ∈ (m s).state?) : P s' := by
  obtain ⟨t, ht, hP⟩ := exists_state h
  exact Option.mem_unique ht hs ▸ hP

@[simp] theorem wp_pure (a : α) : (pure a : Prog σ ε α).wp Q E s ↔ Q a s := Iff.rfl

@[simp] theorem wp_bind (m : Prog σ ε α) (f : α → Prog σ ε β) {Q : β → σ → Prop} :
    (m >>= f).wp Q E s ↔ m.wp (fun a s' => (f a).wp Q E s') E s := by
  unfold wp
  rw [bind_apply]
  cases m s <;> rfl

@[simp] theorem wp_map (m : Prog σ ε α) (f : α → β) {Q : β → σ → Prop} :
    (f <$> m).wp Q E s ↔ m.wp (fun a => Q (f a)) E s := by
  unfold wp
  rw [map_apply]
  cases m s <;> rfl

@[simp] theorem wp_throw (e : ε) : (throw e : Prog σ ε α).wp Q E s ↔ E e s := Iff.rfl

@[simp] theorem wp_crash (f : Fault) : (crash f : Prog σ ε α).wp Q E s ↔ False := Iff.rfl

@[simp] theorem wp_panic : (panic : Prog σ ε α).wp Q E s ↔ False := Iff.rfl

@[simp] theorem wp_get {Q : σ → σ → Prop} : (get : Prog σ ε σ).wp Q E s ↔ Q s s := Iff.rfl

@[simp] theorem wp_put {t : σ} {Q : Unit → σ → Prop} : (put t : Prog σ ε Unit).wp Q E s ↔ Q () t := Iff.rfl

@[simp] theorem wp_modify {f : σ → σ} {Q : Unit → σ → Prop} :
    (modify f : Prog σ ε Unit).wp Q E s ↔ Q () (f s) := Iff.rfl

@[simp] theorem wp_assert {b : Bool} {Q : Unit → σ → Prop} :
    (assert b : Prog σ ε Unit).wp Q E s ↔ b = true ∧ Q () s := by
  cases b <;> simp

@[simp] theorem wp_lift : (lift c : Prog σ ε α).wp Q E s ↔ ∃ a, c = .ok a ∧ Q a s := by
  cases c with
  | ok a => simp
  | error f => simp

@[simp] theorem wp_expect {o : Option α} : (expect o : Prog σ ε α).wp Q E s ↔ ∃ a, o = some a ∧ Q a s := by
  cases o with
  | none => simp
  | some a => simp

theorem wp_zoom {m : Prog τ ε α} : (zoom view set m).wp Q E s ↔
      m.wp (fun a t => Q a (set t s)) (fun e t => E e (set t s)) (view s) := by
  unfold wp zoom
  cases m (view s) <;> rfl

theorem wp_mapErr {E : ε' → σ → Prop} : (mapErr g m).wp Q E s ↔ m.wp Q (fun e => E (g e)) s := by
  unfold wp mapErr
  cases m s <;> rfl

theorem wp_attempt {Q : Except ε α → σ → Prop} {E : ε' → σ → Prop} : (attempt m : Prog σ ε' _).wp Q E s ↔
      m.wp (fun a => Q (.ok a)) (fun e => Q (.error e)) s := by
  unfold wp attempt
  cases m s <;> rfl

/-! ## All three ends -/

/-- **The three ends of a run**: it returns in `Q`, fails in `E`, or faults and `F` holds.  With `True`
for `F` this is `wlp`, with `False` it is `wp`. -/
def meets (m : Prog σ ε α) (Q : α → σ → Prop) (E : ε → σ → Prop) (F : Prop) (s : σ) : Prop := (m s).Meets Q E F

variable {F F' : Prop}

theorem meets_mono (h : m.meets Q E F s) (hQ : ∀ a s, Q a s → Q' a s)
    (hE : ∀ e s, E e s → E' e s) (hF : F → F') : m.meets Q' E' F' s := by
  unfold meets at h ⊢
  cases hm : m s with
  | ok a s' => exact hQ a s' (by simpa [hm] using h)
  | err e s' => exact hE e s' (by simpa [hm] using h)
  | fault f => exact hF (by simpa [hm] using h)

theorem meets_false : m.meets Q E False s ↔ m.wp Q E s := by
  unfold meets wp
  cases m s <;> rfl

/-- What holds at both ends that leave a state behind. -/
theorem meets_state : m.meets (fun _ => P) (fun _ => P) True s ↔ ∀ s' ∈ (m s).state?, P s' := by
  unfold meets
  cases m s <;> simp [Outcome.state?]

@[simp] theorem meets_pure (a : α) : (pure a : Prog σ ε α).meets Q E F s ↔ Q a s := Iff.rfl

@[simp] theorem meets_bind (m : Prog σ ε α) (f : α → Prog σ ε β) {Q : β → σ → Prop} :
    (m >>= f).meets Q E F s ↔ m.meets (fun a s' => (f a).meets Q E F s') E F s := by
  unfold meets
  rw [bind_apply]
  cases m s <;> rfl

@[simp] theorem meets_crash (f : Fault) : (crash f : Prog σ ε α).meets Q E F s ↔ F := Iff.rfl

@[simp] theorem meets_panic : (panic : Prog σ ε α).meets Q E F s ↔ F := Iff.rfl

@[simp] theorem meets_get {Q : σ → σ → Prop} : (get : Prog σ ε σ).meets Q E F s ↔ Q s s := Iff.rfl

@[simp] theorem meets_assert {b : Bool} {Q : Unit → σ → Prop} :
    (assert b : Prog σ ε Unit).meets Q E F s ↔ (b = true → Q () s) ∧ (b = false → F) := by
  cases b <;> simp

@[simp] theorem meets_lift : (lift c : Prog σ ε α).meets Q E F s ↔
      (∀ a, c = .ok a → Q a s) ∧ (∀ f, c = .error f → F) := by
  cases c with
  | ok a => simp
  | error f => simp

@[simp] theorem meets_expect {o : Option α} :
    (expect o : Prog σ ε α).meets Q E F s ↔ (∀ a, o = some a → Q a s) ∧ (o = none → F) := by
  cases o with
  | none => simp
  | some a => simp

theorem meets_zoom {m : Prog τ ε α} : (zoom view set m).meets Q E F s ↔
      m.meets (fun a t => Q a (set t s)) (fun e t => E e (set t s)) F (view s) := by
  unfold meets zoom
  cases m (view s) <;> rfl

theorem meets_mapErr {E : ε' → σ → Prop} : (mapErr g m).meets Q E F s ↔ m.meets Q (fun e => E (g e)) F s := by
  unfold meets mapErr
  cases m s <;> rfl

theorem meets_attempt {Q : Except ε α → σ → Prop} {E : ε' → σ → Prop} : (attempt m : Prog σ ε' _).meets Q E F s ↔
      m.meets (fun a => Q (.ok a)) (fun e => Q (.error e)) F s := by
  unfold meets attempt
  cases m s <;> rfl

/-- A part of the state a program does not see stays as it is. -/
theorem meets_zoom_of_forall {m : Prog τ ε α} (hQ : ∀ a t, Q a (set t s)) (hE : ∀ e t, E e (set t s)) (hF : F) :
    (zoom view set m).meets Q E F s := by
  rw [meets_zoom, meets]
  cases m (view s) with
  | ok a t => exact hQ a t
  | err e t => exact hE e t
  | fault f => exact hF

/-! ## Erasure -/

/-- **A program that does another on a part of its state**: whatever it returns or fails with, the other does. -/
def Erases (view : σ → τ) (m : Prog σ ε α) (m0 : Prog τ ε α) : Prop :=
  ∀ s, m.wlp (fun a s' => m0 (view s) = .ok a (view s')) (fun e s' => m0 (view s) = .err e (view s')) s

variable {m0 : Prog τ ε α}

theorem erases_pure (a : α) : Erases view (pure a : Prog σ ε α) (pure a) := fun _ => rfl

theorem erases_lift (c : Checked α) : Erases view (lift c : Prog σ ε α) (lift c) := by
  intro s
  rw [wlp_lift]
  rintro a rfl
  rfl

theorem erases_zoom (hset : ∀ t s, view (set t s) = t) : Erases view (zoom view set m0) m0 := by
  intro s
  rw [wlp_zoom, wlp]
  simp only [hset]
  cases m0 (view s) with
  | ok a t => exact rfl
  | err e t => exact rfl
  | fault f => exact trivial

theorem Erases.bind {f : α → Prog σ ε β} {f0 : α → Prog τ ε β} (h : Erases view m m0)
    (hf : ∀ a, Erases view (f a) (f0 a)) : Erases view (m >>= f) (m0 >>= f0) := by
  intro s
  rw [wlp_bind]
  refine wlp_mono (h s) (fun a s' ha => ?_) fun e s' he => ?_
  · simp only [bind_apply, ha, Outcome.andThen_ok]
    exact hf a s'
  · rw [bind_apply, he, Outcome.andThen_err]

/-! ## Returning alike -/

/-- Whatever the one program returns, the other does, from the same state to the same. -/
def ReturnsAs (m m0 : Prog σ ε α) : Prop := ∀ s a s', m s = .ok a s' → m0 s = .ok a s'

section ReturnsAs
variable {m m0 : Prog σ ε α}

theorem ReturnsAs.refl (m : Prog σ ε α) : m.ReturnsAs m := fun _ _ _ h => h

theorem ReturnsAs.bind {f f0 : α → Prog σ ε β} (h : m.ReturnsAs m0) (hf : ∀ a, (f a).ReturnsAs (f0 a)) :
    (m >>= f).ReturnsAs (m0 >>= f0) := by
  intro s b s'' hb
  obtain ⟨a, s', ha, hb⟩ := bind_ok_iff.1 hb
  exact bind_ok_iff.2 ⟨a, s', h s a s' ha, hf a s' b s'' hb⟩

/-- A step that leaves the state alone may come before. -/
theorem ReturnsAs.of_inserted {g : Prog σ ε β} {f : β → Prog σ ε α} {P : β → Prop}
    (hg : ∀ s b s', g s = .ok b s' → s' = s ∧ P b) (hf : ∀ b, P b → (f b).ReturnsAs m0) :
    (g >>= f).ReturnsAs m0 := by
  intro s a s'' h
  obtain ⟨b, s', hb, ha⟩ := bind_ok_iff.1 h
  obtain ⟨rfl, hP⟩ := hg s b s' hb
  exact hf b hP s' a s'' ha
end ReturnsAs
end Prog

export Checked (bind_eq_ok ok_bind pure_eq_ok)

export Outcome (andThen_ok)
end Machinery
