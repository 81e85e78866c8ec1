import Mathlib.Order.Lattice

/-!
# Testing/KernelTests — the test kernel

The kernel under test takes commands from its serial port, one line each, and reports on the tests it runs.
Tests are run in the order of their list; the modules they are grouped in only show in the log.  A test that
panics ends the kernel, and with it its QEMU process, with the code for failure.
-/

namespace WasabiOS

/-- The lines builder and kernel exchange. -/
inductive Line where
  | count
  | countIgnored
  | testNormal
  | resume
  /-- `start test`, the builder's confirmation -/
  | startTest
  | number (n : ℕ)
  /-- `start test {n}` -/
  | startTestAt (n : ℕ)
  | testSucceeded
  | testFailed
  deriving DecidableEq, Repr

/-- What comes of running a test. -/
inductive TestOutcome where
  | succeed
  | fail
  | panic
  deriving DecidableEq, Repr

structure KernelTestDescription where
  /-- `expected_exit == TestExitState::Panic` -/
  expectsPanic : Bool
  focus : Bool
  ignore : Bool
  /-- what `run_test_bsp` comes to -/
  outcome : TestOutcome
  deriving DecidableEq, Repr

inductive ExitCode where
  /-- kernel exit successfuly. -/
  | success
  /-- an error occured -/
  | error
  deriving DecidableEq, Repr

variable (tests : List KernelTestDescription)

def focusOnly : Bool := tests.any (·.focus)

/-- The loop over the tests does not skip this one. -/
def isRun (t : KernelTestDescription) : Bool :=
  !t.expectsPanic && !(focusOnly tests && !t.focus) && !(t.ignore && !t.focus)

/-- The tests that are run. -/
def runTests : List KernelTestDescription := tests.filter (isRun tests)

def countTests (expectPanic : Bool) : ℕ :=
  (((tests.filter fun t => t.focus == focusOnly tests).filter fun t => !t.ignore || t.focus).filter
    fun t => t.expectsPanic == expectPanic).length

def countIgnored (expectPanic : Bool) : ℕ :=
  ((tests.filter fun t => t.ignore && !t.focus).filter fun t => t.expectsPanic == expectPanic).length

/-- What is counted is what is run. -/
theorem countTests_eq : countTests tests false = (runTests tests).length := by
  rw [countTests, runTests, List.filter_filter, List.filter_filter]
  refine congrArg List.length (List.filter_congr fun t ht => ?_)
  have hfocus : t.focus = true → focusOnly tests = true := fun h => List.any_eq_true.2 ⟨t, ht, h⟩
  revert hfocus
  unfold isRun
  cases t.expectsPanic <;> cases t.focus <;> cases t.ignore <;> cases focusOnly tests <;> decide

/-- The variables of `run_tests_with_serial`. -/
structure TestLoop where
  todo : List KernelTestDescription
  startAt : ℕ
  testNumber : ℕ
  totalCount : ℕ
  totalSuccess : ℕ
  deriving DecidableEq, Repr

inductive TestKernel where
  /-- `run_tests` waits for a command -/
  | command
  /-- `resume` waits for the number of a test -/
  | resumeAt
  | looping (l : TestLoop)
  /-- a test is announced and not confirmed -/
  | confirming (t : KernelTestDescription) (l : TestLoop)
  | exited (code : ExitCode)
  deriving DecidableEq, Repr

/-- What a step of the kernel does: its next state, the lines it has not read, the lines it sends, and the
tests it started and those it reported as a success. -/
structure KernelStep where
  kernel : TestKernel
  unread : List Line
  sent : List Line := []
  started : List ℕ := []
  reported : List ℕ := []

namespace TestKernel

/-- `run_tests` with a command -/
def onCommand (line : Line) (unread : List Line) : KernelStep :=
  match line with
  | .count => { kernel := command, unread, sent := [.number (countTests tests false)] }
  | .countIgnored => { kernel := command, unread, sent := [.number (countIgnored tests false)] }
  | .testNormal => { kernel := looping ⟨tests, 0, 0, 0, 0⟩, unread }
  | .resume => { kernel := resumeAt, unread }
  -- "unexpected command"
  | _ => { kernel := exited .error, unread }

/-- `parse_line` -/
def onIndex (line : Line) (unread : List Line) : KernelStep :=
  match line with
  | .number n => { kernel := looping ⟨tests, n, 0, 0, 0⟩, unread }
  | _ => { kernel := exited .error, unread }

/-- The loop up to the next test that is announced. -/
def loop (l : TestLoop) (unread : List Line) : KernelStep :=
  match l.todo with
  | [] => { kernel := exited (if l.totalCount = l.totalSuccess then .success else .error), unread }
  | t :: todo =>
    if !isRun tests t then { kernel := looping { l with todo }, unread }
    else if l.testNumber < l.startAt then
      { kernel := looping { l with todo, testNumber := l.testNumber + 1 }, unread }
    else
      { kernel := confirming t { l with todo, totalCount := l.totalCount + 1 }, unread
        sent := [.startTestAt l.testNumber] }

/-- The rest of the loop, from the confirmation on. -/
def runTest (t : KernelTestDescription) (l : TestLoop) (line : Line) (unread : List Line) : KernelStep :=
  if line = .startTest then
    match t.outcome with
    | .succeed =>
      { kernel := looping { l with testNumber := l.testNumber + 1, totalSuccess := l.totalSuccess + 1 }, unread
        sent := [.testSucceeded], started := [l.testNumber], reported := [l.testNumber] }
    | .fail =>
      { kernel := looping { l with testNumber := l.testNumber + 1 }, unread
        sent := [.testFailed], started := [l.testNumber] }
    | .panic => { kernel := exited .error, unread, started := [l.testNumber] }
  else { kernel := exited .error, unread }

/-- A step, unless the kernel waits for a line or has exited. -/
def step : TestKernel → List Line → Option KernelStep
  | command, line :: unread => some (onCommand tests line unread)
  | resumeAt, line :: unread => some (onIndex tests line unread)
  | looping l, unread => some (loop tests l unread)
  | confirming t l, line :: unread => some (runTest t l line unread)
  | _, _ => none
end TestKernel
end WasabiOS
