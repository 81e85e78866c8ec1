import WasabiOS.Machinery.U64

/-!
# Shared/RangeSet — `RangeSet`, a set of `u64` as an array of inclusive ranges

The array `ranges: [Range; N]` with its count `in_use` is the list of the entries in use; the slots
behind them are never read before they are written.  Every assertion that there is room for one more
entry is `RangeSet.ofEntries`.

The loops of `insert` and `remove` start over whenever they change the number of entries.  Each start
is one unit of fuel, and running out of it is the loop that does not end.
-/

open Machinery
namespace WasabiOS

/-- An inclusive range. -/
@[ext] structure Range where
  /-- the inclusive range start -/
  start : UInt64
  /-- the inclusive range end -/
  end_ : UInt64
  deriving DecidableEq, Repr

namespace Range

/-- The range with its ends in order, as `overlaps` and `contains` swap them. -/
def sorted (r : Range) : Range := if r.start > r.end_ then ⟨r.end_, r.start⟩ else r

/-- Determines overlap of `a` and `b`. If there is overlap, returns the range of the overlap -/
def overlaps (a b : Range) : Option Range :=
  let a := a.sorted
  let b := b.sorted
  if a.start ≤ b.end_ ∧ b.start ≤ a.end_ then some ⟨max a.start b.start, min a.end_ b.end_⟩ else none

/-- Returns true if the entirity of `a` is contained inside `b`, else returns false. -/
def contains (a b : Range) : Bool :=
  let a := a.sorted
  let b := b.sorted
  decide (a.start ≥ b.start) && decide (a.end_ ≤ b.end_)
end Range

/-- A set of non-overlapping inclusive `u64` ranges -/
structure RangeSet (N : ℕ) where
  /-- the entries in use -/
  entries : List Range
  in_use_le : entries.length ≤ N
  deriving DecidableEq, Repr

namespace RangeSet
variable {N : ℕ}

/-- The entries in an array of `N`: they have to fit. -/
def ofEntries (entries : List Range) : Checked (RangeSet N) :=
  if h : entries.length ≤ N then .ok ⟨entries, h⟩ else .error .panic

/-- Create a new empty RangeSet -/
def new (N : ℕ) : Checked (RangeSet N) :=
  if N ≤ 2 ^ 32 - 1 then ofEntries [] else .error .panic

/-- Get the number of used entries in the RangeSet -/
def len (s : RangeSet N) : ℕ := s.entries.length

/-- Delete the Range at `idx` -/
def delete (entries : List Range) (idx : ℕ) : Checked (List Range) :=
  if idx < entries.length then .ok (entries.eraseIdx idx) else .error .panic

/-- The test of `insert`: both ends are one longer, so that ranges that touch count as
overlapping. -/
def touches (range ent : Range) : Bool := (Range.overlaps ⟨range.start, U64.saturatingAdd range.end_ 1⟩
    ⟨ent.start, U64.saturatingAdd ent.end_ 1⟩).isSome

/-- The loop `'try_merges`: the entries left, and the range they were merged into. -/
def tryMerges : ℕ → List Range → Range → Checked (List Range × Range)
  | 0, _, _ => .error .diverge
  | fuel + 1, entries, range =>
    match entries.findIdx? (touches range) with
    | none => return (entries, range)
    | some ii =>
      match entries[ii]? with
      | none => .error .panic
      | some ent => do
        let range := ⟨min range.start ent.start, max range.end_ ent.end_⟩
        tryMerges fuel (← delete entries ii) range

/-- Insert a new range into this RangeSet. -/
def insert (s : RangeSet N) (range : Range) : Checked (RangeSet N) :=
  if range.start ≤ range.end_ then do
    let (entries, range) ← tryMerges (s.entries.length + 1) s.entries range
    ofEntries (entries ++ [range])
  else .error .panic

/-- Remove `range` from the entries `done ++ todo`, none of `done` being equal to it or containing
it. -/
def removeIfExistFrom (range : Range) : List Range → List Range → Checked (Bool × RangeSet N)
  | done, [] => return (false, ← ofEntries done)
  | done, ent :: todo =>
    if range = ent then
      return (true, ← ofEntries (done ++ todo))
    else if !range.contains ent then
      removeIfExistFrom range (done ++ [ent]) todo
    else if range.start = ent.start then
      if range.end_ < ent.end_ ∧ range.end_ > ent.start then do
        return (true, ← ofEntries (done ++ ⟨← U64.add range.end_ 1, ent.end_⟩ :: todo))
      else .error .panic
    else if range.end_ = ent.end_ then
      if range.start > ent.start ∧ range.start < ent.end_ then do
        return (true, ← ofEntries (done ++ ⟨ent.start, ← U64.sub range.start 1⟩ :: todo))
      else .error .panic
    else if range.start > ent.start ∧ range.start < ent.end_ then do
      -- the entry keeps `range.start`
      let s : RangeSet N ← ofEntries (done ++ ⟨ent.start, range.start⟩ :: todo)
      if range.end_ > ent.start ∧ range.end_ < ent.end_ then
        return (true, ← s.insert ⟨← U64.add range.end_ 1, ent.end_⟩)
      else .error .panic
    else .error .panic

/-- Remove `range` from the RangeSet if the entire range is within the rangeset. Otherwise do
nothing.  Returns true if the range was removed -/
def removeIfExist (s : RangeSet N) (range : Range) : Checked (Bool × RangeSet N) := removeIfExistFrom range [] s.entries

/-- How a pass over the entries ends: it got to the end, or it has to start over. -/
inductive Pass where
  | finished (entries : List Range)
  | again (entries : List Range)
  deriving DecidableEq, Repr

/-- One pass of the loop `'try_subtractions` over the entries `done ++ todo`, at the first of
`todo`. -/
def subtractPass (range : Range) : List Range → List Range → Pass
  | done, [] => .finished done
  | done, ent :: todo =>
    if (range.overlaps ent).isNone then subtractPass range (done ++ [ent]) todo
    else if ent.contains range then .again (done ++ todo)
    else if range.start ≤ ent.start then
      subtractPass range (done ++ [⟨U64.saturatingAdd range.end_ 1, ent.end_⟩]) todo
    else if range.end_ ≥ ent.end_ then
      subtractPass range (done ++ [⟨ent.start, U64.saturatingSub range.start 1⟩]) todo
    else
      .again (done ++ ⟨U64.saturatingAdd range.end_ 1, ent.end_⟩ :: todo ++
        [⟨ent.start, U64.saturatingSub range.start 1⟩])

/-- The loop `'try_subtractions`. -/
def trySubtractions (range : Range) : ℕ → RangeSet N → Checked (RangeSet N)
  | 0, _ => .error .diverge
  | fuel + 1, s =>
    match subtractPass range [] s.entries with
    | .finished entries => ofEntries entries
    | .again entries => do trySubtractions range fuel (← ofEntries entries)

/-- Remove `range` from the RangeSet -/
def remove (s : RangeSet N) (range : Range) : Checked (RangeSet N) :=
  if range.start ≤ range.end_ then trySubtractions range (s.entries.length + 1) s
  else .error .panic

/-- The fold of `sum`. -/
def sumFrom : UInt64 → List Range → Checked (Option UInt64)
  | acc, [] => return some acc
  | acc, x :: xs => do
    let width ← U64.sub x.end_ x.start
    match U64.checkedAdd width 1 with
    | none => return none
    | some count => sumFrom (← U64.add acc count) xs

/-- Compute the size of the range covered by this rangeset -/
def sum (s : RangeSet N) : Checked (Option UInt64) := sumFrom 0 s.entries
end RangeSet

/-- Specifies which region an allocation should be within -/
inductive RegionRequest where
  /-- Any region can be used for the allocation -/
  | any
  /-- The given region should be prefered, but any region can be used, if the prefered region can
  not fullfill the allocation -/
  | preference (regions : RangeSet 256)
  /-- The allocation must be fullfilled from within the region -/
  | forced (regions : RangeSet 256)

namespace RegionRequest

/-- The regions the caller wants to use. -/
def regions : RegionRequest → List Range
  | any => []
  | preference r => r.entries
  | forced r => r.entries

/-- The regions are a must-use. -/
def force : RegionRequest → Bool
  | any => false
  | preference _ => false
  | forced _ => true
end RegionRequest

namespace RangeSet
variable {N : ℕ}

/-- An allocation: the range to take out of the set, and the pointer into it. -/
structure Allocation where
  base : UInt64
  end_ : UInt64
  ptr : UInt64
  deriving DecidableEq, Repr

/-- `core::usize::MAX as u64` on a 64 bit target. -/
def USIZE_MAX : UInt64 := U64.MAX

/-- What the loop over the regions finds in an entry. -/
inductive RegionSearch where
  /-- no region has room -/
  | miss
  /-- `continue 'allocation_search` -/
  | skip
  | hit (allocation : Allocation)
  deriving DecidableEq, Repr

/-- The loop over the regions for the entry `ent`. -/
def searchRegions (size alignmask : UInt64) (ent : Range) : List Range → Checked RegionSearch
  | [] => return .miss
  | region :: regions =>
    match ent.overlaps region with
    | none => searchRegions size alignmask ent regions
    | some overlap =>
      let alignOverlap := (overlap.start + alignmask) &&& ~~~alignmask
      if alignOverlap ≥ overlap.start ∧ alignOverlap ≤ overlap.end_ then do
        if (← U64.sub overlap.end_ alignOverlap) ≥ (← U64.sub size 1) then
          let overlapAlcEnd ← U64.add alignOverlap (← U64.sub size 1)
          if alignOverlap > USIZE_MAX ∨ overlapAlcEnd > USIZE_MAX then return .skip
          else return .hit ⟨alignOverlap, overlapAlcEnd, alignOverlap⟩
        else searchRegions size alignmask ent regions
      else searchRegions size alignmask ent regions

/-- The end of an allocation of `size` bytes at the front of an entry, padding included. -/
def allocationEnd (base size alignFix : UInt64) : Option UInt64 := do
  -- `size` is not zero here
  U64.checkedAdd (← U64.checkedAdd base (size - 1)) alignFix

/-- Whether a candidate of `newSize` is better than the best one so far. -/
def improves (allocation : Option Allocation) (newSize : UInt64) : Checked Bool :=
  match allocation with
  | none => return true
  | some a => do return decide ((← U64.sub a.end_ a.base) > newSize)

/-- The loop `'allocation_search`.  An entry whose end overflows returns from the whole function:
`none`. -/
def allocationSearch (size align alignmask : UInt64) (request : RegionRequest) :
    List Range → Option Allocation → Checked (Option (Option Allocation))
  | [], allocation => return some allocation
  | ent :: ents, allocation => do
    let alignFix := (← U64.sub align (ent.start &&& alignmask)) &&& alignmask
    let base := ent.start
    match allocationEnd base size alignFix with
    | none => return none
    | some end_ =>
      if base > USIZE_MAX ∨ end_ > USIZE_MAX then
        allocationSearch size align alignmask request ents allocation
      else if end_ > ent.end_ then
        allocationSearch size align alignmask request ents allocation
      else
        match ← searchRegions size alignmask ent request.regions with
        | .hit found => return some (some found)
        | .skip => allocationSearch size align alignmask request ents allocation
        | .miss =>
          if request.force then
            allocationSearch size align alignmask request ents allocation
          else if ← improves allocation (← U64.sub end_ base) then
            let best := ⟨base, end_, ← U64.add base alignFix⟩
            allocationSearch size align alignmask request ents (some best)
          else allocationSearch size align alignmask request ents allocation

/-- Allocate `size` bytes of memory with `align` requirement for alignment, from the regions of the
request -/
def allocatePrefer (s : RangeSet N) (size align : UInt64) (request : RegionRequest) :
    Checked (Option UInt64 × RangeSet N) :=
  if size = 0 then return (none, s)
  else if U64.countOnes align ≠ 1 then return (none, s)
  else do
    let alignmask ← U64.sub align 1
    match ← allocationSearch size align alignmask request s.entries none with
    | some (some a) => return (some a.ptr, ← s.remove ⟨a.base, a.end_⟩)
    | some none => return (none, s)
    | none => return (none, s)

/-- Allocate `size` bytes of memory with `align` requirement for alignment -/
def allocate (s : RangeSet N) (size align : UInt64) : Checked (Option UInt64 × RangeSet N) :=
  s.allocatePrefer size align .any
end RangeSet
end WasabiOS
