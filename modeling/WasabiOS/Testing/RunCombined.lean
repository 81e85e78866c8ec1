import WasabiOS.Machinery.Run
import WasabiOS.Testing.KernelTests

/-!
# Testing/RunCombined — the builder and its test kernels

`run_combined_tests` starts a kernel, asks it for its tests, and follows it from test to test.  When the QEMU
process ends with the code for failure the test that ran is given up, and a new kernel resumes after it.

A `TestBench` is the builder, the kernel it has started and the two directions of the serial line.  Every read
and write of the builder may see the exit of the process instead, which can happen while there are still lines
to read; at the end of the stream it waits for the exit, but not forever.
-/

namespace WasabiOS

inductive QemuExitCode where
  | exitNormal
  | success
  | fail
  | unknown (code : ℕ)
  deriving DecidableEq, Repr

/-- The status of the process after `qemu::exit`. -/
def ExitCode.status : ExitCode → QemuExitCode
  | .success => .success
  | .error => .fail

structure TestCount where
  success : ℕ
  ignored : ℕ
  total : ℕ
  deriving DecidableEq, Repr

/-- Why `run_combined_tests` fails. -/
inductive RunError where
  /-- the process ended where nothing can be resumed, or `keep_going` is not set -/
  | exited (code : QemuExitCode)
  | unexpectedExit (code : QemuExitCode)
  | notOk (code : QemuExitCode)
  | connection
  | unexpectedLine (line : Line)
  | wrongTest (next : ℕ)
  deriving DecidableEq, Repr

/-- Where `run_combined_tests` is: the next thing it reads or writes. -/
inductive Host where
  | askCount
  | receiveCount
  | askIgnored (total : ℕ)
  | receiveIgnored (total : ℕ)
  | startTests (c : TestCount)
  | receiveIndex (currentTest : ℕ) (c : TestCount)
  | confirm (currentTest : ℕ) (c : TestCount)
  | receiveResult (currentTest : ℕ) (c : TestCount)
  /-- `restart_qemu` with its two lines -/
  | resume (currentTest : ℕ) (c : TestCount)
  | resumeIndex (currentTest : ℕ) (c : TestCount)
  | wait (c : TestCount)
  | returned (r : Except RunError TestCount)
  deriving Repr

/-- `while current_test < test_count` -/
def Host.next (currentTest : ℕ) (c : TestCount) : Host :=
  if currentTest < c.total then .receiveIndex currentTest c else .wait c

/-- The builder, a kernel, and the lines on the way; with the tests that were started and those that were
reported as a success, by any kernel. -/
structure TestBench where
  kernel : TestKernel
  toKernel : List Line
  toHost : List Line
  host : Host
  started : List ℕ
  reported : List ℕ

namespace TestBench

/-- The kernel is up and the handshake done. -/
def init : TestBench := ⟨.command, [], [], .askCount, [], []⟩

variable (b : TestBench)

def fails (e : RunError) : TestBench := { b with host := .returned (.error e) }

/-- The builder writes a line. -/
def write (line : Line) (host : Host) : TestBench := { b with host, toKernel := b.toKernel ++ [line] }

/-- A new process. -/
def restart (currentTest : ℕ) (c : TestCount) : TestBench :=
  { b with kernel := .command, toKernel := [], toHost := [], host := .resume currentTest c }

/-- The kernel takes a step. -/
def stepKernel (tests : List KernelTestDescription) : Option TestBench :=
  (b.kernel.step tests b.toKernel).map fun k =>
    { b with
      kernel := k.kernel, toKernel := k.unread, toHost := b.toHost ++ k.sent
      started := b.started ++ k.started, reported := b.reported ++ k.reported }

/-- The builder writes, where it is at a `write_all`. -/
def send : Option TestBench :=
  match b.host with
  | .askCount => some (b.write .count .receiveCount)
  | .askIgnored total => some (b.write .countIgnored (.receiveIgnored total))
  | .startTests c => some (b.write .testNormal (.next 0 c))
  | .confirm currentTest c => some (b.write .startTest (.receiveResult currentTest c))
  | .resume currentTest c => some (b.write .resume (.resumeIndex currentTest c))
  | .resumeIndex currentTest c => some (b.write (.number currentTest) (.next currentTest c))
  | _ => none

/-- The builder has read a line, where it is at a `recieve_line`. -/
def receiveLine (line : Line) : Option TestBench :=
  match b.host with
  | .receiveCount =>
    match line with
    | .number n => some { b with host := .askIgnored n }
    | _ => some (b.fails (.unexpectedLine line))
  | .receiveIgnored total =>
    match line with
    | .number n => some { b with host := .startTests ⟨0, n, total⟩ }
    | _ => some (b.fails (.unexpectedLine line))
  | .receiveIndex currentTest c =>
    match line with
    | .startTestAt n =>
      if currentTest = n then some { b with host := .confirm currentTest c } else some (b.fails (.wrongTest n))
    | _ => some (b.fails (.unexpectedLine line))
  | .receiveResult currentTest c =>
    match line with
    | .testSucceeded => some { b with host := .next (currentTest + 1) { c with success := c.success + 1 } }
    | .testFailed => some { b with host := .next (currentTest + 1) c }
    | _ => some (b.fails (.unexpectedLine line))
  | _ => none

def receive : Option TestBench :=
  match b.toHost with
  | [] => none
  | line :: toHost => { b with toHost }.receiveLine line

/-- The exit is seen while a test is announced, confirmed or run. -/
def giveUp (keepGoing : Bool) (code : QemuExitCode) (currentTest : ℕ) (c : TestCount) : TestBench :=
  if !keepGoing then b.fails (.exited code)
  else if code = .fail then b.restart (currentTest + 1) c
  else b.fails (.unexpectedExit code)

/-- The builder sees that the process has ended. -/
def seeExit (keepGoing : Bool) (code : QemuExitCode) : Option TestBench :=
  match b.host with
  | .receiveIndex currentTest c => some (b.giveUp keepGoing code currentTest c)
  | .confirm currentTest c => some (b.giveUp keepGoing code currentTest c)
  | .receiveResult currentTest c => some (b.giveUp keepGoing code currentTest c)
  | .wait c => some { b with host := .returned (if code = .success then .ok c else .error (.notOk code)) }
  | .returned _ => none
  | _ => some (b.fails (.exited code))

/-- The stream has ended, and the wait for the exit was too short. -/
def timeout : Option TestBench :=
  match b.host with
  | .receiveCount => some (b.fails .connection)
  | .receiveIgnored _ => some (b.fails .connection)
  | .receiveIndex _ _ => some (b.fails .connection)
  | .receiveResult _ _ => some (b.fails .connection)
  | _ => none

/-- What can happen next. -/
inductive Event where
  | kernel
  | send
  | receive
  | exit
  | timeout
  deriving DecidableEq, Repr

def step (tests : List KernelTestDescription) (keepGoing : Bool) : Event → TestBench → Option TestBench
  | .kernel, b => b.stepKernel tests
  | .send, b => b.send
  | .receive, b => b.receive
  | .exit, b =>
    match b.kernel with
    | .exited code => b.seeExit keepGoing code.status
    | _ => none
  | .timeout, b =>
    match b.kernel with
    | .exited _ => if b.toHost = [] then b.timeout else none
    | _ => none
end TestBench
end WasabiOS
