import Mathlib.Data.List.TakeWhile

/-!
# Testing/TestTargets — which tests a list of targets runs

A test system has a cargo part and a kernel part, and `test_group` takes the part its group does not ask for out of
a system before it runs it.  The futures are cached by the id of the system alone, so of several requests for a
system the first one decides which parts run.
-/

namespace WasabiOS
open List

inductive TestPart where
  | cargo
  | kernel
  deriving DecidableEq, Repr

structure TestSystem where
  id : String
  /-- the package for `cargo test` -/
  cargo : Option String
  /-- the disk image of the test kernel -/
  kernel : Option String
  deriving DecidableEq, Repr

structure TestGroup where
  id : String
  systems : List String
  cargoOnly : Bool
  kernelOnly : Bool

/-- The tests of a verified configuration, whose ids are unique. -/
structure TestConfig where
  tests : List TestSystem
  testGroups : List TestGroup

inductive TestError where
  | couldNotFind (id : String)
  | testSystem (id : String)

def TestGroup.all (g : TestGroup) : Bool := (g.cargoOnly && g.kernelOnly) || (!g.cargoOnly && !g.kernelOnly)

/-- The system without the parts the group does not ask for -/
def TestGroup.edit (g : TestGroup) (test : TestSystem) : TestSystem :=
  if g.all then test
  else { test with cargo := if g.cargoOnly then test.cargo else none
                   kernel := if g.kernelOnly then test.kernel else none }

variable (passes : String → TestPart → Bool) (config : TestConfig)
namespace TestSystem

/-- The parts of a system, in the order in which its future runs them -/
def parts (system : TestSystem) : List TestPart :=
  (system.cargo.map fun _ => .cargo).toList ++ (system.kernel.map fun _ => .kernel).toList

/-- The parts the future executes: after one that does not pass there are no more. -/
def executed (system : TestSystem) : List TestPart :=
  system.parts.takeWhile (passes system.id) ++ (system.parts.dropWhile (passes system.id)).take 1

/-- The result of the future -/
def passed (system : TestSystem) : Bool := system.parts.all (passes system.id)
end TestSystem

/-- `spawn_or_get` of the future of a system; the cache is the systems whose futures are in it. -/
def spawnOrGet (cache : List TestSystem) (system : TestSystem) : TestSystem × List TestSystem :=
  match cache.find? (·.id = system.id) with
  | some out => (out, cache)
  | none => (system, cache ++ [system])

/-- The cache after a system has been tested -/
def testSystem (cache : List TestSystem) (system : TestSystem) : Except TestError (List TestSystem) :=
  let (future, cache) := spawnOrGet cache system
  if future.passed passes then .ok cache else .error (.testSystem system.id)

def testGroup (cache : List TestSystem) (group : TestGroup) : Except TestError (List TestSystem) :=
  group.systems.foldlM (fun cache id =>
    match config.tests.find? (·.id = id) with
    | some test => testSystem passes cache (group.edit test)
    | none => .error (.couldNotFind id)) cache

def testTargets (cache : List TestSystem) (targets : List String) : Except TestError (List TestSystem) :=
  targets.foldlM (fun cache target =>
    match config.tests.find? (·.id = target), config.testGroups.find? (·.id = target) with
    | some system, _ => testSystem passes cache system
    | none, some group => testGroup passes config cache group
    | none, none => .error (.couldNotFind target)) cache

/-- The systems a target asks for, with the parts it asks for. -/
def requests (target : String) : List TestSystem :=
  match config.tests.find? (·.id = target), config.testGroups.find? (·.id = target) with
  | some system, _ => [system]
  | none, some group => group.systems.flatMap fun id => (config.tests.find? (·.id = id)).toList.map group.edit
  | none, none => []

/-- Every part of a system that a target asked for was executed and passed. -/
def SelectedRun (cache : List TestSystem) (targets : List String) : Prop :=
  ∀ r ∈ targets.flatMap (requests config), ∀ part ∈ r.parts,
    ∃ future, cache.find? (·.id = r.id) = some future ∧ part ∈ future.executed passes ∧ passes r.id part

variable {passes config} {cache cache' : List TestSystem}

/-- These requests passed, and the first for an id is in the cache. -/
structure Tested (passes : String → TestPart → Bool) (cache reqs cache' : List TestSystem) : Prop where
  first : ∀ id, cache'.find? (·.id = id) = (cache ++ reqs).find? (·.id = id)
  passed : (∀ x ∈ cache, x.passed passes) → ∀ x ∈ cache', x.passed passes

theorem tested_testSystem {system : TestSystem} (h : testSystem passes cache system = .ok cache') :
    Tested passes cache [system] cache' := by
  cases hfind : cache.find? (·.id = system.id) with
  | none =>
    simp only [testSystem, spawnOrGet, hfind] at h
    split at h
    case isTrue hpassed =>
      cases h
      exact ⟨fun _ => rfl, fun hc => forall_mem_append.2 ⟨hc, forall_mem_singleton.2 hpassed⟩⟩
    case isFalse => cases h
  | some out =>
    simp only [testSystem, spawnOrGet, hfind] at h
    split at h
    case isTrue =>
      cases h
      -- a request for what is there already changes no first request
      refine ⟨fun id => ?_, fun hc => hc⟩
      rw [find?_append]
      by_cases hid : system.id = id
      · rw [← hid, hfind, Option.some_or]
      · rw [find?_singleton, if_neg (by simpa using hid), Option.or_none]
    case isFalse => cases h

theorem tested_foldlM {α : Type} {f : List TestSystem → α → Except TestError (List TestSystem)}
    {g : α → List TestSystem} (hstep : ∀ x {c c'}, f c x = .ok c' → Tested passes c (g x) c') :
    ∀ {xs : List α} {c}, xs.foldlM f c = .ok cache' → Tested passes c (xs.flatMap g) cache'
  | [], c, h => by
    cases h
    exact ⟨fun _ => by rw [flatMap_nil, append_nil], id⟩
  | x :: xs, c, h => by
    rw [foldlM_cons] at h
    cases hx : f c x with
    | error e => rw [hx] at h; cases h
    | ok c' =>
      rw [hx] at h
      have hfirst := hstep x hx
      have hrest := tested_foldlM hstep h
      refine ⟨fun id => ?_, fun hc => hrest.passed (hfirst.passed hc)⟩
      rw [hrest.first, find?_append, hfirst.first, ← find?_append, append_assoc, flatMap_cons]

theorem tested_testTargets {targets : List String} (h : testTargets passes config cache targets = .ok cache') :
    Tested passes cache (targets.flatMap (requests config)) cache' := by
  refine tested_foldlM (fun target c c' h => ?_) h
  unfold requests
  split at h
  case h_1 => exact tested_testSystem h
  case h_2 group _ _ =>
    refine tested_foldlM (fun id c c' h => ?_) h
    split at h
    case h_1 hfind => rw [hfind]; exact tested_testSystem h
    case h_2 => cases h
  case h_3 => cases h

/-- A system with both parts, and a group that asks for one of them -/
def bothParts : TestConfig := ⟨[⟨"fs", some "fs", some "fs"⟩], [⟨"cargo", ["fs"], true, false⟩]⟩

end WasabiOS
