import WasabiOS.Machinery.Run
import WasabiOS.Shared.LockCell

/-!
# Shared/UnwrapLock — a read-write lock behind `UnwrapLock`

Any number of threads read and lock one `ReadWriteCell`, one atomic access at a time.  The wrapper takes locks from the
cell and forgets the guards of the cell.  A write guard is given back to the cell; a read guard is given back to the
wrapper's `force_release_read`, which is the empty default of the trait (`unwrapLock_iff`).
-/

open Machinery
namespace WasabiOS
open Option Run

/-- `RWCellInternal::force_release_read`, where it is not implemented. -/
def RWCellInternal.forceReleaseRead (c : ReadWriteCell) : ReadWriteCell := c

/-- `release_read` of the wrapper -/
def UnwrapLock.releaseRead (c : ReadWriteCell) : ReadWriteCell := RWCellInternal.forceReleaseRead c

/-- `unlock` of the wrapper, which is `unlock_no_guard` of the cell -/
def UnwrapLock.unlock (c : ReadWriteCell) : Checked ReadWriteCell :=
  if c.accessCount = -1 then .ok { c with accessCount := 0 } else .error .panic

/-- The cell, its guards, and the count each thread that waits to read has seen. -/
structure GuardedCell (ι : Type) where
  cell : ReadWriteCell
  readers : ℕ
  writers : ℕ
  curCount : ι → ℤ

/-- An atomic access. -/
inductive CellAccess (ι : Type) where
  /-- the load at the start of `read` -/
  | loadRead (thread : ι)
  /-- a round of the loop of `read` -/
  | tryRead (thread : ι)
  /-- a round of the loop of `lock` -/
  | tryLock
  | dropRead
  | dropWrite

namespace GuardedCell
variable {ι : Type} [DecidableEq ι]

def setCount (s : GuardedCell ι) (count : ℤ) : GuardedCell ι := { s with cell.accessCount := count }

def see (s : GuardedCell ι) (thread : ι) : GuardedCell ι :=
  { s with curCount := Function.update s.curCount thread s.cell.accessCount }

/-- The state after an access, if it is possible and does not panic. -/
def step : CellAccess ι → GuardedCell ι → Option (GuardedCell ι)
  | .loadRead thread, s => some (s.see thread)
  | .tryRead thread, s =>
    if s.curCount thread < 0 ∨ s.cell.accessCount ≠ s.curCount thread then some (s.see thread)
    else if s.cell.accessCount + 1 < 2 ^ 63 then
      some { s.setCount (s.cell.accessCount + 1) with readers := s.readers + 1 }
    else none
  | .tryLock, s =>
    if s.cell.accessCount = 0 then some { s.setCount (-1) with writers := s.writers + 1 } else some s
  | .dropRead, s =>
    if s.readers = 0 then none else some { s with cell := UnwrapLock.releaseRead s.cell, readers := s.readers - 1 }
  | .dropWrite, s =>
    if s.writers = 0 then none
    else match UnwrapLock.unlock s.cell with
      | .ok cell => some { s with cell := cell, writers := s.writers - 1 }
      | .error _ => none

/-- **What the count says**: the number of readers, or that there is one writer. -/
def Counts (s : GuardedCell ι) : Prop :=
  (s.writers = 0 ∧ s.cell.accessCount = s.readers) ∨ (s.writers = 1 ∧ s.readers = 0 ∧ s.cell.accessCount = -1)

/-- The count is right, and a writer gets the lock if nobody has it. -/
structure Sound (s : GuardedCell ι) : Prop where
  counts : Counts s
  free : s.readers = 0 → s.writers = 0 → ∃ s' ∈ step .tryLock s, s'.writers = 1

/-- A reader gives its guard back. -/
def Forgets (access : CellAccess ι) (s : GuardedCell ι) : Prop := access = .dropRead ∧ 0 < s.readers

variable {s s' : GuardedCell ι} {access : CellAccess ι}

theorem Counts.sound (h : Counts s) : Sound s where
  counts := h
  free hreaders hwriters := by
    have hcount : s.cell.accessCount = 0 := by rcases h with ⟨-, hcount⟩ | ⟨hone, -, -⟩ <;> omega
    exact ⟨_, if_pos hcount, congrArg (· + 1) hwriters⟩

/-- **Every access keeps the count**, but for the guard of a reader. -/
theorem Counts.step (h : Counts s) (hkeeps : ¬ Forgets access s) (hs : s' ∈ step access s) : Counts s' := by
  cases access with
  | loadRead thread =>
    cases Option.some.inj hs
    exact h
  | tryRead thread =>
    rw [mem_def, GuardedCell.step] at hs
    split_ifs at hs with hwait hfits
    · cases Option.some.inj hs
      exact h
    · cases Option.some.inj hs
      -- a thread that sees a count of its own has not seen a writer
      have hpos : 0 ≤ s.cell.accessCount := by omega
      rcases h with ⟨hwriters, hcount⟩ | ⟨-, -, hcount⟩
      · exact .inl ⟨hwriters, by change s.cell.accessCount + 1 = ((s.readers + 1 : ℕ) : ℤ); omega⟩
      · omega
  | tryLock =>
    rw [mem_def, GuardedCell.step] at hs
    split_ifs at hs with hfree
    · cases Option.some.inj hs
      rcases h with ⟨hwriters, hcount⟩ | ⟨-, -, hcount⟩
      · exact .inr ⟨congrArg (· + 1) hwriters, by change s.readers = 0; omega, rfl⟩
      · omega
    · cases Option.some.inj hs
      exact h
  | dropRead =>
    rw [mem_def, GuardedCell.step] at hs
    split_ifs at hs with hnone
    exact absurd ⟨rfl, Nat.pos_of_ne_zero hnone⟩ hkeeps
  | dropWrite =>
    rw [mem_def, GuardedCell.step, UnwrapLock.unlock] at hs
    split_ifs at hs with hnone hcount
    cases Option.some.inj hs
    rcases h with ⟨hwriters, -⟩ | ⟨hwriters, hreaders, -⟩
    · exact absurd hwriters hnone
    · exact .inl ⟨by change s.writers - 1 = 0; omega, by change (0 : ℤ) = s.readers; omega⟩

/-- The count still has the reader that is gone. -/
theorem Counts.not_forgets (h : Counts s) (hnext : ∀ s' ∈ GuardedCell.step access s, Sound s') : ¬ Forgets access s := by
  rintro ⟨rfl, hpos⟩
  have hdropped := (hnext _ (if_neg hpos.ne')).counts
  change (s.writers = 0 ∧ s.cell.accessCount = ((s.readers - 1 : ℕ) : ℤ)) ∨
    (s.writers = 1 ∧ s.readers - 1 = 0 ∧ s.cell.accessCount = -1) at hdropped
  rcases h with h | h <;> omega

/-- A lock nobody has taken yet. -/
def new (preemtable : Bool) (curCount : ι → ℤ) : GuardedCell ι := ⟨⟨0, preemtable⟩, 0, 0, curCount⟩
end GuardedCell

open GuardedCell in
/-- **The count of a wrapped lock is right along a run exactly if no read guard is dropped in it.** -/
theorem unwrapLock_iff {ι : Type} [DecidableEq ι] (preemtable : Bool) (curCount : ι → ℤ)
    (accesses : List (CellAccess ι)) :
    Along step (fun access s => ∀ s' ∈ step access s, Sound s') accesses (new preemtable curCount) ↔
      Along step (fun access s => ¬ Forgets access s) accesses (new preemtable curCount) :=
  along_iff_of_invariant (I := Counts)
    (fun _ _ h => ⟨h.not_forgets, fun hkeeps _ hs => (h.step hkeeps hs).sound⟩)
    (fun _ _ h hsound _ hs => h.step (h.not_forgets hsound) hs) (.inl ⟨rfl, rfl⟩)

/-- **One reader comes and goes**, and no writer ever gets the lock. -/
theorem not_unwrapLock : ¬ Along GuardedCell.step
    (fun access s => ∀ s' ∈ GuardedCell.step access s, GuardedCell.Sound s')
    [.loadRead (), .tryRead (), .dropRead] (.new true fun _ => 0) := by
  intro h
  have hdropped : GuardedCell.Counts _ := ((h.2 _ rfl).2 _ rfl).1 _ rfl |>.counts
  rcases hdropped with ⟨-, hcount⟩ | ⟨hwriters, -⟩
  · cases hcount
  · cases hwriters
end WasabiOS
