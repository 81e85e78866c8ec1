import WasabiOS.Machinery.Prog
import WasabiOS.Machinery.Run
import Mathlib.Algebra.Order.Ring.Nat

/-!
# Shared/Barrier — the barrier, one atomic access at a time

`Barrier::enter` and `Barrier::enter_with_timeout` are sequences of atomic accesses to two counters.  A
`Pc` is the access a participant makes next, with the locals it still needs; `Local.advance` makes it.
The participants are interleaved freely: a run is a list of `Action`s, each one access of one
participant or the start of a call.

The `target` is the number of participants throughout.
-/

open Machinery
namespace WasabiOS
namespace Barrier

/-- The two counters. -/
structure Counters where
  enterCount : ℕ
  passingCount : ℕ
  deriving DecidableEq, Repr

namespace Counters

/-- A store to `enter_count`. -/
def setEnter (v : ℕ) (c : Counters) : Counters := { c with enterCount := v }

/-- A store to `passing_count`. -/
def setPassing (v : ℕ) (c : Counters) : Counters := { c with passingCount := v }

@[simp] theorem setEnter_enterCount (v : ℕ) (c : Counters) : (c.setEnter v).enterCount = v := rfl

@[simp] theorem setPassing_enterCount (v : ℕ) (c : Counters) : (c.setPassing v).enterCount = c.enterCount := rfl

@[simp] theorem setPassing_passingCount (v : ℕ) (c : Counters) : (c.setPassing v).passingCount = v := rfl
end Counters

/-- The number of values of a `u32`. -/
def u32Size : ℕ := 2 ^ 32

/-- The access a participant makes next. -/
inductive Pc where
  /-- not in a call -/
  | outside
  /-- `passing_count.load`, in the first loop -/
  | gate
  /-- `passing_count.compare_exchange(0, target)` -/
  | elect
  /-- `enter_count.fetch_add(1)` -/
  | arrive (leader : Bool)
  /-- in the second loop, with `current < target` -/
  | spin (leader : Bool) (current : ℕ)
  /-- `enter_count.load`, in the second loop after a timeout that could not be taken -/
  | reload (leader : Bool)
  /-- `passing_count.load`, in the loop of the leader -/
  | drain
  /-- `enter_count.store(0)` -/
  | resetEnter
  /-- `passing_count.store(0)` -/
  | resetPassing
  /-- `passing_count.fetch_sub(1)` -/
  | leave
  deriving DecidableEq, Repr

/-- A participant. -/
structure Local where
  pc : Pc
  /-- whether the call is one of `enter_with_timeout` -/
  timed : Bool
  /-- `timeout_iters`: the checks left before the clock is read -/
  iters : ℕ
  /-- what the calls returned that passed the barrier, oldest first -/
  passed : List Bool
  /-- how many calls timed out -/
  timeouts : ℕ
  deriving DecidableEq, Repr

namespace Local

/-- The next access. -/
def goto (pc : Pc) (l : Local) : Local := { l with pc := pc }

/-- A call starts. -/
def call (timed : Bool) (l : Local) : Local := { l with pc := .gate, timed := timed, iters := 10000 }

/-- The call returns. -/
def return_ (leader : Bool) (l : Local) : Local := { l with pc := .outside, passed := l.passed ++ [leader] }

/-- The call returns `Err`. -/
def giveUp (l : Local) : Local := { l with pc := .outside, timeouts := l.timeouts + 1 }

/-- Whether `check_timeout` fails; `late` is the answer of the clock, should it be asked. -/
def isLate (late : Bool) (l : Local) : Bool := l.timed && l.iters == 0 && late

/-- `check_timeout`, where it does not fail. -/
def check (l : Local) : Local := { l with iters := l.iters - 1 }

/-- Behind the second loop. -/
def behind (leader : Bool) (l : Local) : Local := l.goto (if leader then .drain else .leave)

/-- The test of the second loop. -/
def test (target : ℕ) (leader : Bool) (current : ℕ) (l : Local) : Local :=
  if current < target then l.goto (.spin leader current) else l.behind leader

/-- The next access of a participant. -/
def advance (target : ℕ) (late : Bool) (c : Counters) (l : Local) : Checked (Counters × Local) :=
  match l.pc with
  | .outside => return (c, l)
  | .gate =>
    if c.passingCount = target ∨ c.passingCount = 0 then return (c, l.goto .elect)
    else if l.isLate late then return (c, l.giveUp)
    else return (c, l.check)
  | .elect =>
    if c.passingCount = 0 then
      return (c.setPassing target, l.goto (.arrive true))
    else return (c, l.goto (.arrive false))
  | .arrive leader =>
    return (c.setEnter ((c.enterCount + 1) % u32Size), l.test target leader c.enterCount)
  | .spin leader current =>
    if l.isLate late then
      -- `current - 1` is evaluated before the exchange
      if current = 0 then .error .panic
      else if c.enterCount = current then
        return (c.setEnter (current - 1), l.giveUp)
      else return (c, l.goto (.reload leader))
    else return (c, l.check.test target leader c.enterCount)
  | .reload leader => return (c, l.test target leader c.enterCount)
  | .drain =>
    if c.passingCount = 1 then return (c, l.goto .resetEnter)
    else if l.isLate late then return (c, l.giveUp)
    else return (c, l.check)
  | .resetEnter => return (c.setEnter 0, l.goto .resetPassing)
  | .resetPassing => return (c.setPassing 0, l.return_ true)
  | .leave =>
    return (c.setPassing ((c.passingCount + (u32Size - 1)) % u32Size), l.return_ false)
end Local

/-! ## Participants -/

variable {n : ℕ}

/-- The barrier and its `n` participants. -/
structure State (n : ℕ) where
  counters : Counters
  locals : Fin n → Local

namespace State

/-- One participant moves. -/
def set (s : State n) (i : Fin n) (c : Counters) (l : Local) : State n := ⟨c, Function.update s.locals i l⟩

@[simp] theorem set_counters (s : State n) (i : Fin n) (c : Counters) (l : Local) : (s.set i c l).counters = c := rfl

@[simp] theorem set_self (s : State n) (i : Fin n) (c : Counters) (l : Local) :
    (s.set i c l).locals i = l := Function.update_self ..

theorem set_of_ne (s : State n) {i j : Fin n} (c : Counters) (l : Local) (h : j ≠ i) :
    (s.set i c l).locals j = s.locals j := Function.update_of_ne h ..

/-- `Barrier::new(n)`, and nobody there yet. -/
def fresh (n : ℕ) : State n where
  counters := ⟨0, 0⟩
  locals _ := { pc := .outside, timed := false, iters := 0, passed := [], timeouts := 0 }
end State

/-- What a participant does next. -/
inductive Action (n : ℕ) where
  /-- call `enter`, or `enter_with_timeout` if `timed` -/
  | call (i : Fin n) (timed : Bool)
  /-- make the next access -/
  | access (i : Fin n) (late : Bool)
  deriving DecidableEq, Repr

namespace Action

/-- Whose action it is. -/
def actor : Action n → Fin n
  | call i _ => i
  | access i _ => i

/-- The state after the action, unless it panics. -/
def step : Action n → State n → Option (State n)
  | call i timed, s => some (s.set i s.counters ((s.locals i).call timed))
  | access i late, s =>
    match (s.locals i).advance n late s.counters with
    | .ok (c, l) => some (s.set i c l)
    | .error _ => none

/-- Calls start outside, accesses are made inside. -/
def Legal : Action n → State n → Prop
  | call i _, s => (s.locals i).pc = .outside
  | access i _, s => (s.locals i).pc ≠ .outside

instance (s : State n) : ∀ a : Action n, Decidable (a.Legal s)
  | call i _ => inferInstanceAs (Decidable ((s.locals i).pc = _))
  | access i _ => inferInstanceAs (Decidable ((s.locals i).pc ≠ _))
end Action
end Barrier
end WasabiOS
