import WasabiOS.Testing.RunCombined

/-!
# Testing/TestRuns — builder and kernel stay in step

`Inv` says, for every place the builder can be at, what the kernel and the lines on the way are.  The kernel is
`Ready` for a test when the next thing it says is that it starts this test, or that there is none left.

**In every run in which an exit is seen only after the lines before it** tests are started once and in order,
successes are counted, and the builder returns (`conforms_of_inOrder`).
-/

open Machinery
namespace WasabiOS
open TestKernel TestBench Host Option Run
variable (tests : List KernelTestDescription)

/-- Every test that is run succeeds. -/
def AllSucceed : Prop := ∀ t ∈ runTests tests, t.outcome = .succeed

/-! ## The kernel -/

/-- The loop will announce the test `cur` next. -/
structure TestLoop.Nears (cur : ℕ) (l : TestLoop) : Prop where
  todo : l.todo.filter (isRun tests) = (runTests tests).drop l.testNumber
  next : max l.testNumber l.startAt = cur
  clean : AllSucceed tests → l.totalCount = l.totalSuccess

/-- The test `cur` is announced. -/
structure TestLoop.At (cur : ℕ) (t : KernelTestDescription) (l : TestLoop) : Prop where
  test : t ∈ runTests tests
  number : l.testNumber = cur
  startAt : l.startAt ≤ cur
  lt : cur < (runTests tests).length
  todo : l.todo.filter (isRun tests) = (runTests tests).drop (cur + 1)
  clean : AllSucceed tests → l.totalCount = l.totalSuccess + 1

/-- The kernel, with what it has not read and has sent, goes on with the test `cur`. -/
inductive Ready : TestKernel → List Line → List Line → ℕ → Prop where
  | normal : Ready .command [.testNormal] [] 0
  | resume (cur : ℕ) : Ready .command [.resume, .number cur] [] cur
  | index (cur : ℕ) : Ready .resumeAt [.number cur] [] cur
  | looping {cur : ℕ} {l : TestLoop} (h : l.Nears tests cur) : Ready (.looping l) [] [] cur
  | announced {cur : ℕ} {t : KernelTestDescription} {l : TestLoop} (h : l.At tests cur t) :
    Ready (.confirming t l) [] [.startTestAt cur] cur
  | exited {code : ExitCode} (h : AllSucceed tests → code = .success) :
    Ready (.exited code) [] [] (runTests tests).length

variable {tests} {k : TestKernel} {q h : List Line} {cur : ℕ} {l : TestLoop} {t : KernelTestDescription}

/-- A loop over all tests nears the test it is to start at. -/
theorem TestLoop.Nears.start (cur : ℕ) : TestLoop.Nears tests cur ⟨tests, cur, 0, 0, 0⟩ :=
  ⟨rfl, Nat.zero_max _, fun _ => rfl⟩

/-- The test at the head of the loop is the one with its number. -/
theorem drop_cons_of_isRun {todo : List KernelTestDescription} {n : ℕ} (ht : isRun tests t = true)
    (h : (t :: todo).filter (isRun tests) = (runTests tests).drop n) :
    n < (runTests tests).length ∧ t ∈ runTests tests ∧ todo.filter (isRun tests) = (runTests tests).drop (n + 1) := by
  rw [List.filter_cons_of_pos ht] at h
  have hlt : n < (runTests tests).length := by
    by_contra hge
    rw [List.drop_eq_nil_of_le (not_lt.1 hge)] at h
    cases h
  rw [List.drop_eq_getElem_cons hlt, List.cons.injEq] at h
  exact ⟨hlt, h.1 ▸ List.getElem_mem hlt, h.2⟩

/-- **The loop** nears its test, announces it, or ends. -/
theorem Ready.loop (hl : l.Nears tests cur) (hcur : cur ≤ (runTests tests).length) :
    Ready tests (loop tests l []).kernel (loop tests l []).unread (loop tests l []).sent cur := by
  obtain ⟨todo, startAt, testNumber, count, success⟩ := l
  obtain ⟨htodo, hnext, hclean⟩ := hl
  dsimp only at htodo hnext hclean
  cases todo with
  | nil =>
    have hge : (runTests tests).length ≤ testNumber := List.drop_eq_nil_iff.1 htodo.symm
    have hend : cur = (runTests tests).length := by omega
    subst hend
    exact .exited fun hall => if_pos (hclean hall)
  | cons t todo =>
    unfold loop
    dsimp only
    by_cases ht : isRun tests t = true
    · obtain ⟨hlt, hmem, hrest⟩ := drop_cons_of_isRun ht htodo
      rw [ht, Bool.not_true, if_neg Bool.false_ne_true]
      by_cases hskip : testNumber < startAt
      · rw [if_pos hskip]
        exact .looping ⟨hrest, by dsimp only; omega, hclean⟩
      · rw [if_neg hskip]
        obtain rfl : testNumber = cur := by omega
        exact .announced ⟨hmem, rfl, not_lt.1 hskip, hlt, hrest, fun hall => congrArg (· + 1) (hclean hall)⟩
    · have hfalse : isRun tests t = false := Bool.eq_false_iff.2 ht
      rw [hfalse, Bool.not_false, if_pos rfl]
      rw [List.filter_cons_of_neg ht] at htodo
      exact .looping ⟨htodo, hnext, hclean⟩

/-- The loop starts no test without a confirmation. -/
theorem loop_silent (l : TestLoop) (q : List Line) :
    (loop tests l q).started = [] ∧ (loop tests l q).reported = [] := by
  obtain ⟨todo, startAt, testNumber, count, success⟩ := l
  cases todo with
  | nil => exact ⟨rfl, rfl⟩
  | cons t todo =>
    unfold loop
    dsimp only
    split_ifs <;> exact ⟨rfl, rfl⟩

/-- **A kernel that is ready stays ready**, and starts no test by itself. -/
theorem Ready.step (hready : Ready tests k q h cur) (hcur : cur ≤ (runTests tests).length) {s : KernelStep}
    (hs : k.step tests q = some s) :
    Ready tests s.kernel s.unread (h ++ s.sent) cur ∧ s.started = [] ∧ s.reported = [] := by
  cases hready with
  | normal =>
    cases hs
    exact ⟨.looping (.start 0), rfl, rfl⟩
  | resume =>
    cases hs
    exact ⟨.index cur, rfl, rfl⟩
  | index =>
    cases hs
    exact ⟨.looping (.start cur), rfl, rfl⟩
  | looping hl =>
    cases hs
    exact ⟨.loop hl hcur, loop_silent _ _⟩
  | announced hat => cases hs
  | exited hcode => cases hs

/-- A kernel that is ready for a test goes on by itself until it has said so. -/
theorem Ready.progress (hready : Ready tests k q h cur) : (∃ s, k.step tests q = some s) ∨ (∃ n, h = [.startTestAt n]) ∨
      (∃ code, k = .exited code ∧ h = [] ∧ cur = (runTests tests).length) := by
  cases hready with
  | announced hat => exact .inr (.inl ⟨_, rfl⟩)
  | exited hcode => exact .inr (.inr ⟨_, rfl, rfl, rfl⟩)
  | _ => exact .inl ⟨_, rfl⟩

/-! ## The bench -/

variable (tests) in
/-- What was started, reported and counted before the test `cur`. -/
structure Tally (started reported : List ℕ) (c : TestCount) (cur : ℕ) : Prop where
  started : started = List.range cur
  counted : c.success = reported.length
  ignored : c.ignored = countIgnored tests false
  total : c.total = (runTests tests).length
  all : AllSucceed tests → reported.length = cur

variable (tests) in
/-- What the kernel and the lines are, for each place the builder is at. -/
inductive TestBench.Inv : TestBench → Prop where
  | init : TestBench.Inv .init
  | askedCount : TestBench.Inv ⟨.command, [.count], [], .receiveCount, [], []⟩
  | toldCount : TestBench.Inv ⟨.command, [], [.number (countTests tests false)], .receiveCount, [], []⟩
  | askIgnored : TestBench.Inv ⟨.command, [], [], .askIgnored (countTests tests false), [], []⟩
  | askedIgnored : TestBench.Inv ⟨.command, [.countIgnored], [], .receiveIgnored (countTests tests false), [], []⟩
  | toldIgnored :
    TestBench.Inv ⟨.command, [], [.number (countIgnored tests false)], .receiveIgnored (countTests tests false), [], []⟩
  | startTests :
    TestBench.Inv ⟨.command, [], [], .startTests ⟨0, countIgnored tests false, countTests tests false⟩, [], []⟩
  | ready {k : TestKernel} {q h : List Line} {cur : ℕ} {c : TestCount} {started reported : List ℕ}
    (hready : Ready tests k q h cur) (hcur : cur ≤ (runTests tests).length)
    (htally : Tally tests started reported c cur) :
    TestBench.Inv ⟨k, q, h, .next cur c, started, reported⟩
  | confirm {t : KernelTestDescription} {l : TestLoop} {cur : ℕ} {c : TestCount} {started reported : List ℕ}
    (hat : l.At tests cur t) (htally : Tally tests started reported c cur) :
    TestBench.Inv ⟨.confirming t l, [], [], .confirm cur c, started, reported⟩
  | confirmed {t : KernelTestDescription} {l : TestLoop} {cur : ℕ} {c : TestCount} {started reported : List ℕ}
    (hat : l.At tests cur t) (htally : Tally tests started reported c cur) :
    TestBench.Inv ⟨.confirming t l, [.startTest], [], .receiveResult cur c, started, reported⟩
  | succeeded {k : TestKernel} {q h : List Line} {cur : ℕ} {c : TestCount} {started reported : List ℕ}
    (hready : Ready tests k q h (cur + 1)) (hcur : cur + 1 ≤ (runTests tests).length)
    (htally : Tally tests started reported { c with success := c.success + 1 } (cur + 1)) :
    TestBench.Inv ⟨k, q, .testSucceeded :: h, .receiveResult cur c, started, reported⟩
  | failed {k : TestKernel} {q h : List Line} {cur : ℕ} {c : TestCount} {started reported : List ℕ}
    (hready : Ready tests k q h (cur + 1)) (hcur : cur + 1 ≤ (runTests tests).length)
    (htally : Tally tests started reported c (cur + 1)) :
    TestBench.Inv ⟨k, q, .testFailed :: h, .receiveResult cur c, started, reported⟩
  | panicked {cur : ℕ} {c : TestCount} {started reported : List ℕ} (hcur : cur + 1 ≤ (runTests tests).length)
    (htally : Tally tests started reported c (cur + 1)) :
    TestBench.Inv ⟨.exited .error, [], [], .receiveResult cur c, started, reported⟩
  | resume {cur : ℕ} {c : TestCount} {started reported : List ℕ} (hcur : cur ≤ (runTests tests).length)
    (htally : Tally tests started reported c cur) :
    TestBench.Inv ⟨.command, [], [], .resume cur c, started, reported⟩
  | resuming {cur : ℕ} {c : TestCount} {started reported : List ℕ} (hcur : cur ≤ (runTests tests).length)
    (htally : Tally tests started reported c cur) :
    TestBench.Inv ⟨.command, [.resume], [], .resumeIndex cur c, started, reported⟩
  | resumed {cur : ℕ} {c : TestCount} {started reported : List ℕ} (hcur : cur ≤ (runTests tests).length)
    (htally : Tally tests started reported c cur) :
    TestBench.Inv ⟨.resumeAt, [], [], .resumeIndex cur c, started, reported⟩
  | returned {code : ExitCode} {c : TestCount} {started reported : List ℕ} {r : Except RunError TestCount}
    (htally : Tally tests started reported c (runTests tests).length) (hr : ∀ c', r = .ok c' → c' = c)
    (hall : AllSucceed tests → r = .ok c) :
    TestBench.Inv ⟨.exited code, [], [], .returned r, started, reported⟩

variable {b b' : TestBench} {c : TestCount} {started reported : List ℕ}
namespace Tally

theorem zero : Tally tests [] [] ⟨0, countIgnored tests false, countTests tests false⟩ 0 :=
  ⟨rfl, rfl, rfl, countTests_eq tests, fun _ => rfl⟩

theorem fail (htally : Tally tests started reported c cur) (hnot : ¬ AllSucceed tests) :
    Tally tests (started ++ [cur]) reported c (cur + 1) :=
  ⟨by rw [htally.started, List.range_succ], htally.counted, htally.ignored, htally.total, fun h => absurd h hnot⟩

theorem succeed (htally : Tally tests started reported c cur) (n : ℕ) :
    Tally tests (started ++ [cur]) (reported ++ [n]) { c with success := c.success + 1 } (cur + 1) where
  started := by rw [htally.started, List.range_succ]
  counted := by rw [List.length_append, htally.counted, List.length_singleton]
  ignored := htally.ignored
  total := htally.total
  all h := by rw [List.length_append, htally.all h, List.length_singleton]

theorem lt (htally : Tally tests started reported c (cur + 1)) (hcur : cur + 1 ≤ (runTests tests).length) :
    cur < c.total := by
  rw [htally.total]
  exact hcur

/-- The count of a run without a failure. -/
theorem eq_of_all (htally : Tally tests started reported c (runTests tests).length) (hall : AllSucceed tests) :
    c = ⟨(runTests tests).length, countIgnored tests false, (runTests tests).length⟩ := by
  obtain ⟨-, hcounted, hignored, htotal, hlength⟩ := htally
  obtain ⟨success, ignored, total⟩ := c
  rw [hlength hall] at hcounted
  dsimp only at hcounted hignored htotal
  rw [hcounted, hignored, htotal]

/-- The loop of the builder goes on as long as there are tests. -/
theorem next_eq (htally : Tally tests started reported c cur) :
    cur < (runTests tests).length ∧ next cur c = .receiveIndex cur c ∨
      (runTests tests).length ≤ cur ∧ next cur c = .wait c := by
  unfold next
  rw [htally.total]
  split_ifs with hlt
  · exact .inl ⟨hlt, rfl⟩
  · exact .inr ⟨not_lt.1 hlt, rfl⟩
end Tally

/-! ### Weights

Every step takes from a weight: the kernel's for the tests it has not looked at, two for a line to the kernel
and one for a line to the builder, and the builder's for the kernels it may still have to start. -/

variable (tests) in
def TestKernel.weight : TestKernel → ℕ
  | command => 4 * tests.length + 3
  | resumeAt => 4 * tests.length + 2
  | looping l => 4 * l.todo.length + 1
  | confirming _ l => 4 * l.todo.length + 3
  | exited _ => 0

variable (tests) in
/-- The weight of the tests from `cur` on, each with a kernel of its own. -/
def restWeight (total cur : ℕ) : ℕ := (total - cur) * (4 * tests.length + 16)

variable (tests) in
def Host.weight : Host → ℕ
  | askCount => restWeight tests (runTests tests).length 0 + 15
  | receiveCount => restWeight tests (runTests tests).length 0 + 12
  | askIgnored total => restWeight tests total 0 + 12
  | receiveIgnored total => restWeight tests total 0 + 9
  | startTests c => restWeight tests c.total 0 + 9
  | receiveIndex cur c => restWeight tests c.total cur + 6
  | confirm cur c => restWeight tests c.total cur + 6
  | receiveResult cur c => restWeight tests c.total cur + 3
  | resume cur c => restWeight tests c.total cur + 12
  | resumeIndex cur c => restWeight tests c.total cur + 9
  | wait _ => 1
  | returned _ => 0

variable (tests) in
def TestBench.weight (b : TestBench) : ℕ :=
  b.kernel.weight tests + 2 * b.toKernel.length + b.toHost.length + b.host.weight tests

theorem restWeight_succ {total : ℕ} (h : cur < total) :
    restWeight tests total cur = restWeight tests total (cur + 1) + (4 * tests.length + 16) := by
  have hsub : total - cur = (total - (cur + 1)) + 1 := by omega
  rw [restWeight, restWeight, hsub, Nat.add_mul, Nat.one_mul]

theorem Host.weight_next_le : (next cur c).weight tests ≤ restWeight tests c.total cur + 6 := by
  unfold next
  split_ifs
  · exact le_rfl
  · exact le_trans (by decide : 1 ≤ 6) (Nat.le_add_left _ _)

variable (tests) in
theorem Host.weight_next_succ (hlt : cur < c.total) :
    (next (cur + 1) c).weight tests ≤ (receiveResult cur c).weight tests := by
  have hnext : (next (cur + 1) c).weight tests ≤ restWeight tests c.total (cur + 1) + 6 := weight_next_le
  have hrest : restWeight tests c.total cur = restWeight tests c.total (cur + 1) + _ := restWeight_succ hlt
  show _ ≤ restWeight tests c.total cur + 3
  omega

theorem TestKernel.weight_step {s : KernelStep} (hs : k.step tests q = some s) :
    s.kernel.weight tests + 2 * s.unread.length + s.sent.length < k.weight tests + 2 * q.length := by
  cases k with
  | command =>
    cases q with
    | nil => cases hs
    | cons line q =>
      cases hs
      rw [List.length_cons]
      cases line <;> simp only [onCommand, weight, List.length_singleton, List.length_nil] <;> omega
  | resumeAt =>
    cases q with
    | nil => cases hs
    | cons line q =>
      cases hs
      rw [List.length_cons]
      cases line <;> simp only [onIndex, weight, List.length_nil] <;> omega
  | looping l =>
    cases hs
    obtain ⟨todo, startAt, testNumber, count, success⟩ := l
    cases todo with
    | nil =>
      simp only [loop, weight, List.length_nil]
      omega
    | cons t todo =>
      simp only [loop, weight, List.length_cons]
      split_ifs <;> simp only [List.length_nil, List.length_singleton] <;> omega
  | confirming t l =>
    cases q with
    | nil => cases hs
    | cons line q =>
      cases hs
      rw [List.length_cons]
      unfold runTest
      split_ifs
      · cases t.outcome <;> simp only [weight, List.length_singleton, List.length_nil] <;> omega
      · simp only [weight, List.length_nil]
        omega
  | exited code => cases hs

theorem TestBench.weight_stepKernel (hs : b.stepKernel tests = some b') : b'.weight tests < b.weight tests := by
  obtain ⟨s, hk, rfl⟩ := map_eq_some_iff.1 hs
  have hlt := weight_step hk
  simp only [weight, List.length_append]
  omega

/-- The builder leaves a place for a line and a place that weigh less. -/
theorem TestBench.exists_write (hs : b.send = some b') :
    ∃ line host, b' = b.write line host ∧ host.weight tests + 2 < b.host.weight tests := by
  have hnext : ∀ cur c, (next cur c).weight tests + 2 < restWeight tests c.total cur + 9 :=
    fun cur c => lt_of_le_of_lt (Nat.add_le_add_right weight_next_le 2) (Nat.lt_succ_self _)
  have hlt : ∀ n : ℕ, n + 2 < n + 3 := fun n => Nat.lt_succ_self _
  unfold send at hs
  cases hhost : b.host <;> rw [hhost] at hs <;> cases hs
  · exact ⟨_, _, rfl, hlt _⟩
  · exact ⟨_, _, rfl, hlt _⟩
  · exact ⟨_, _, rfl, hnext 0 _⟩
  · exact ⟨_, _, rfl, hlt _⟩
  · exact ⟨_, _, rfl, hlt _⟩
  · exact ⟨_, _, rfl, hnext _ _⟩

theorem TestBench.weight_send (hs : b.send = some b') : b'.weight tests < b.weight tests := by
  obtain ⟨line, host, rfl, hlt⟩ :
      ∃ line host, b' = b.write line host ∧ host.weight tests + 2 < b.host.weight tests := exists_write hs
  simp only [weight, TestBench.write, List.length_append, List.length_singleton]
  omega

/-- A line is read, and the place the builder goes on from weighs no more. -/
theorem TestBench.weight_read {line : Line} {host host' : Host} (hle : host'.weight tests ≤ host.weight tests) :
    weight tests ⟨k, q, h, host', started, reported⟩ < weight tests ⟨k, q, line :: h, host, started, reported⟩ := by
  simp only [weight, List.length_cons]
  omega

/-! ### Steps -/

/-- After its test the kernel is ready for the next one. -/
theorem TestLoop.At.nears (hat : l.At tests cur t) {success : ℕ} (hclean : AllSucceed tests → l.totalCount = success) :
    TestLoop.Nears tests (cur + 1) { l with testNumber := l.testNumber + 1, totalSuccess := success } := by
  have hstart := hat.startAt
  refine ⟨?_, ?_, hclean⟩
  · rw [hat.number]
    exact hat.todo
  · dsimp only
    rw [hat.number]
    omega

section
variable (hinv : TestBench.Inv tests b)
include hinv

/-- **The kernel's steps.** -/
theorem TestBench.Inv.stepKernel (hs : b.stepKernel tests = some b') : TestBench.Inv tests b' := by
  obtain ⟨s, hk, rfl⟩ := map_eq_some_iff.1 hs
  cases hinv with
  | askedCount => cases hk; exact .toldCount
  | askedIgnored => cases hk; exact .toldIgnored
  | ready hready hcur htally =>
    obtain ⟨hnext, hstarted, hreported⟩ := hready.step hcur hk
    rw [hstarted, hreported, List.append_nil, List.append_nil]
    exact .ready hnext hcur htally
  | @confirmed t l cur c started reported hat htally =>
    cases hk
    obtain ⟨expectsPanic, focus, ignore, outcome⟩ := t
    have hlt : cur + 1 ≤ (runTests tests).length := hat.lt
    have hnumber : [l.testNumber] = [cur] := by rw [hat.number]
    cases outcome with
    | succeed =>
      show TestBench.Inv tests ⟨_, [], [.testSucceeded], _, started ++ [l.testNumber], reported ++ [l.testNumber]⟩
      rw [hnumber]
      have hclean : AllSucceed tests → l.totalCount = l.totalSuccess + 1 := hat.clean
      exact .succeeded (.looping (hat.nears hclean)) hlt (htally.succeed cur)
    | fail =>
      have hnot : ¬ AllSucceed tests := fun hall => by cases hall _ hat.test
      show TestBench.Inv tests ⟨_, [], [.testFailed], _, started ++ [l.testNumber], reported ++ []⟩
      rw [hnumber, List.append_nil]
      exact .failed (.looping (hat.nears fun hall => absurd hall hnot)) hlt (htally.fail hnot)
    | panic =>
      have hnot : ¬ AllSucceed tests := fun hall => by cases hall _ hat.test
      show TestBench.Inv tests ⟨_, [], [], _, started ++ [l.testNumber], reported ++ []⟩
      rw [hnumber, List.append_nil]
      exact .panicked hlt (htally.fail hnot)
  | succeeded hready hcur htally =>
    obtain ⟨hnext, hstarted, hreported⟩ := hready.step hcur hk
    rw [hstarted, hreported, List.append_nil, List.append_nil]
    exact .succeeded hnext hcur htally
  | failed hready hcur htally =>
    obtain ⟨hnext, hstarted, hreported⟩ := hready.step hcur hk
    rw [hstarted, hreported, List.append_nil, List.append_nil]
    exact .failed hnext hcur htally
  | resuming hcur htally =>
    cases hk
    show TestBench.Inv tests ⟨_, [], [], _, _ ++ [], _ ++ []⟩
    rw [List.append_nil, List.append_nil]
    exact .resumed hcur htally
  | _ => cases hk

/-- **What the builder writes.** -/
theorem TestBench.Inv.send (hs : b.send = some b') : TestBench.Inv tests b' := by
  cases hinv with
  | init => cases hs; exact .askedCount
  | askIgnored => cases hs; exact .askedIgnored
  | startTests => cases hs; exact .ready .normal (Nat.zero_le _) .zero
  | ready hready hcur htally =>
    unfold send at hs
    obtain ⟨-, hhost⟩ | ⟨-, hhost⟩ := htally.next_eq
    · rw [hhost] at hs
      cases hs
    · rw [hhost] at hs
      cases hs
  | confirm hat htally => cases hs; exact .confirmed hat htally
  | resume hcur htally => cases hs; exact .resuming hcur htally
  | resuming hcur htally => cases hs; exact .ready (.resume _) hcur htally
  | resumed hcur htally => cases hs; exact .ready (.index _) hcur htally
  | _ => cases hs

/-- **What the builder reads.** -/
theorem TestBench.Inv.receive (hs : b.receive = some b') :
    TestBench.Inv tests b' ∧ b'.weight tests < b.weight tests := by
  cases hinv with
  | toldCount =>
    cases hs
    have hle : (Host.askIgnored (countTests tests false)).weight tests ≤ Host.receiveCount.weight tests := by
      rw [countTests_eq]
      exact le_rfl
    exact ⟨.askIgnored, weight_read hle⟩
  | toldIgnored => cases hs; exact ⟨.startTests, weight_read le_rfl⟩
  | ready hready hcur htally =>
    cases hready with
    | announced hat =>
      -- the test that is announced is the one that is expected
      unfold receive receiveLine at hs
      obtain ⟨-, hhost⟩ | ⟨hge, -⟩ := htally.next_eq
      · simp only [hhost, if_true] at hs ⊢
        cases hs
        exact ⟨.confirm hat htally, weight_read le_rfl⟩
      · exact absurd hat.lt (not_lt.2 hge)
    | _ => cases hs
  | succeeded hready hcur htally | failed hready hcur htally =>
    cases hs
    exact ⟨.ready hready hcur htally, weight_read (weight_next_succ tests (htally.lt hcur))⟩
  | _ => cases hs

/-- **What the builder does about an exit**, if there is nothing left to read. -/
theorem TestBench.Inv.exit (hread : b.toHost = []) (hs : b.step tests true .exit = some b') :
    TestBench.Inv tests b' ∧ b'.weight tests < b.weight tests := by
  cases hinv with
  | @ready k q h cur c started reported hready hcur htally =>
    cases hready with
    | @exited code hcode =>
      -- no test is left, so the builder waits for this exit
      have hhost : next (runTests tests).length c = .wait c :=
        (htally.next_eq.resolve_left fun h => absurd h.1 (lt_irrefl _)).2
      unfold TestBench.step seeExit at hs
      simp only [hhost] at hs ⊢
      cases hs
      refine ⟨.returned htally (fun c' hc' => ?_) fun hall => ?_, Nat.lt_succ_self _⟩
      · split_ifs at hc'
        cases hc'
        rfl
      · rw [hcode hall]
        rfl
    | _ => cases hs
  | succeeded hready hcur htally => cases hread
  | failed hready hcur htally => cases hread
  | @panicked cur c started reported hcur htally =>
    cases hs
    refine ⟨.resume hcur htally, ?_⟩
    have hrest : restWeight tests c.total cur = _ := restWeight_succ (htally.lt hcur)
    show 4 * tests.length + 3 + 0 + 0 + (restWeight tests c.total (cur + 1) + 12) <
      0 + 0 + 0 + (restWeight tests c.total cur + 3)
    omega
  | _ => cases hs
end

/-! ## Whole runs -/

/-- An exit is seen after the lines that were sent before it, and in time. -/
def InOrder : TestBench.Event → TestBench → Prop
  | .exit, b => b.toHost = []
  | .timeout, _ => False
  | _, _ => True

theorem TestBench.Inv.step {e : TestBench.Event} (hinv : TestBench.Inv tests b) (horder : InOrder e b)
    (hs : b.step tests true e = some b') : TestBench.Inv tests b' ∧ b'.weight tests < b.weight tests := by
  cases e with
  | kernel => exact ⟨hinv.stepKernel hs, weight_stepKernel hs⟩
  | send => exact ⟨hinv.send hs, weight_send hs⟩
  | receive => exact hinv.receive hs
  | exit => exact hinv.exit horder hs
  | timeout => exact absurd horder id

/-- Something can happen, in order. -/
def Enabled (tests : List KernelTestDescription) (b : TestBench) : Prop :=
  ∃ e b', InOrder e b ∧ b.step tests true e = some b'

theorem enabled_of_kernel (h : ∃ s, b.kernel.step tests b.toKernel = some s) : Enabled tests b := by
  obtain ⟨s, hs⟩ := h
  exact ⟨.kernel, _, trivial, congrArg (Option.map _) hs⟩

/-- **No deadlock**: the builder returns or something can happen. -/
theorem TestBench.Inv.progress (hinv : TestBench.Inv tests b) (hhost : ∀ r, b.host ≠ .returned r) :
    Enabled tests b := by
  cases hinv with
  | @ready k q h cur c started reported hready hcur htally =>
    obtain hk | ⟨n, rfl⟩ | ⟨code, rfl, rfl, rfl⟩ := hready.progress
    · exact enabled_of_kernel hk
    · cases hready with
      | announced hat =>
        have hnext : next cur c = .receiveIndex cur c :=
          (htally.next_eq.resolve_right fun h => absurd hat.lt (not_lt.2 h.1)).2
        rw [hnext]
        exact ⟨.receive, _, trivial, if_pos rfl⟩
    · have hnext : next (runTests tests).length c = .wait c :=
        (htally.next_eq.resolve_left fun h => absurd h.1 (lt_irrefl _)).2
      rw [hnext]
      exact ⟨.exit, _, rfl, rfl⟩
  | panicked hcur htally => exact ⟨.exit, _, rfl, rfl⟩
  | returned htally hr hall => exact absurd rfl (hhost _)
  | init | askIgnored | startTests | confirm | resume | resuming | resumed => exact ⟨.send, _, trivial, rfl⟩
  | askedCount | askedIgnored | confirmed => exact ⟨.kernel, _, trivial, rfl⟩
  | toldCount | toldIgnored | succeeded | failed => exact ⟨.receive, _, trivial, rfl⟩

/-- What is asked of a state of the bench. -/
structure Conforms (tests : List KernelTestDescription) (b : TestBench) : Prop where
  /-- tests are started once and in order -/
  started : ∃ n ≤ (runTests tests).length, b.started = List.range n
  complete : ∀ r, b.host = .returned r → b.started = List.range (runTests tests).length
  counted : ∀ c, b.host = .returned (.ok c) → c.success = b.reported.length
  succeeds : AllSucceed tests → ∀ r, b.host = .returned r →
    r = .ok ⟨(runTests tests).length, countIgnored tests false, (runTests tests).length⟩
  /-- the builder goes on until it returns -/
  goesOn : (∀ r, b.host ≠ .returned r) → Enabled tests b

section
variable (hinv : TestBench.Inv tests b)
include hinv

theorem TestBench.Inv.started_eq : ∃ n ≤ (runTests tests).length, b.started = List.range n := by
  cases hinv with
  | confirm hat htally | confirmed hat htally => exact ⟨_, hat.lt.le, htally.started⟩
  | returned htally hr hall => exact ⟨_, le_rfl, htally.started⟩
  | ready _ hcur htally | succeeded _ hcur htally | failed _ hcur htally => exact ⟨_, hcur, htally.started⟩
  | panicked hcur htally | resume hcur htally | resuming hcur htally | resumed hcur htally =>
    exact ⟨_, hcur, htally.started⟩
  | _ => exact ⟨0, Nat.zero_le _, rfl⟩

/-- What the builder has returned. -/
theorem TestBench.Inv.result {r : Except RunError TestCount} (hhost : b.host = .returned r) :
    ∃ c, Tally tests b.started b.reported c (runTests tests).length ∧ (∀ c', r = .ok c' → c' = c) ∧
      (AllSucceed tests → r = .ok c) := by
  cases hinv with
  | ready hready hcur htally =>
    obtain ⟨-, hnext⟩ | ⟨-, hnext⟩ := htally.next_eq
    · cases hnext.symm.trans hhost
    · cases hnext.symm.trans hhost
  | returned htally hr hall =>
    cases hhost
    exact ⟨_, htally, hr, hall⟩
  | _ => cases hhost

theorem TestBench.Inv.conforms : Conforms tests b where
  started := hinv.started_eq
  complete r hhost := by
    obtain ⟨c, htally, -, -⟩ := hinv.result hhost
    exact htally.started
  counted c hhost := by
    obtain ⟨c', htally, hr, -⟩ := hinv.result hhost
    rw [hr c rfl]
    exact htally.counted
  succeeds hall r hhost := by
    obtain ⟨c, htally, -, hok⟩ := hinv.result hhost
    rw [hok hall, htally.eq_of_all hall]
  goesOn := hinv.progress
end

/-- **The test protocol**: in every run in which an exit is seen in order the bench conforms in every state,
and no such run goes on forever. -/
theorem conforms_of_inOrder {events : List TestBench.Event}
    (horder : Along (TestBench.step tests true) InOrder events .init)
    (hrun : b ∈ runFrom (TestBench.step tests true) events .init) :
    Conforms tests b ∧ events.length ≤ TestBench.init.weight tests := by
  have hstep : ∀ e b b', TestBench.Inv tests b → InOrder e b → b' ∈ TestBench.step tests true e b →
      TestBench.Inv tests b' ∧ b'.weight tests < b.weight tests := fun e b b' hinv he hs => hinv.step he hs
  have hinv : TestBench.Inv tests b :=
    runFrom_of_along (fun e b b' hinv he hs => (hstep e b b' hinv he hs).1) .init horder hrun
  have hlength := length_add_le_of_along hstep .init horder hrun
  exact ⟨hinv.conforms, le_trans (Nat.le_add_right _ _) hlength⟩

/-! ### One test -/

instance (e : TestBench.Event) (b : TestBench) : Decidable (InOrder e b) :=
  match e with
  | .exit => inferInstanceAs (Decidable (b.toHost = []))
  | .timeout => inferInstanceAs (Decidable False)
  | .kernel => inferInstanceAs (Decidable True)
  | .send => inferInstanceAs (Decidable True)
  | .receive => inferInstanceAs (Decidable True)

/-- A test that succeeds. -/
def oneTest : List KernelTestDescription := [⟨false, false, false, .succeed⟩]

/-- The events up to the test's success: questions, start, announcement, confirmation, and the test. -/
def upToSuccess : List TestBench.Event :=
  [.send, .kernel, .receive, .send, .kernel, .receive, .send, .kernel, .kernel, .receive, .send, .kernel]

theorem conforms_oneTest :
    ∃ b ∈ runFrom (TestBench.step oneTest true) (upToSuccess ++ [.receive, .kernel, .exit]) .init,
      b.host = .returned (.ok ⟨1, 0, 1⟩) ∧ Conforms oneTest b := by
  have horder : Along (TestBench.step oneTest true) InOrder (upToSuccess ++ [.receive, .kernel, .exit]) .init := by
    decide
  exact ⟨_, rfl, rfl, (conforms_of_inOrder horder rfl).1⟩

/-- The kernel is done and exits, and the exit is seen before the line that says that its test succeeded. -/
theorem not_conforms_oneTest : AllSucceed oneTest ∧
      ∃ b ∈ runFrom (TestBench.step oneTest true) (upToSuccess ++ [.kernel, .exit]) .init,
        b.reported = [0] ∧ b.host = .returned (.error (.unexpectedExit .success)) ∧ ¬ Conforms oneTest b := by
  have hall : AllSucceed oneTest := fun t ht => by
    rw [List.mem_singleton.1 ht]
  refine ⟨hall, _, rfl, rfl, rfl, fun hconforms => ?_⟩
  cases hconforms.succeeds hall _ rfl
end WasabiOS
