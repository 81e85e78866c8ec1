import WasabiOS.Machinery.Run
import WasabiOS.Wfs.PartialIter

/-!
# Wfs/GroupAlgebra — block groups as intervals

The operations on a group take parts of the interval it covers, and a list of groups is iterated block by
block.  All of them go through `end`, so `agrees_iff` holds up to the groups that end at the largest address.
-/

open Machinery
namespace WasabiOS
open List
namespace BlockGroup
variable {g : BlockGroup}

/-- The operations on the group are those on its interval; `none` stands for no blocks. -/
structure Agrees (g : BlockGroup) : Prop where
  new : ∀ last : LBA, last.get + 1 = g.past → new g.start last = .ok g
  endLba : ∃ last : LBA, g.endLba = .ok last ∧ last.get + 1 = g.past
  contains : ∀ lba, g.contains lba = .ok (decide (lba.get ∈ g.blocks))
  subgroup : ∀ n, ∃ o, g.subgroup n = .ok o ∧ o.elim [] addresses = g.addresses.drop n
  removeEnd : ∀ n, ∃ o, g.removeEnd n = .ok o ∧ o.elim [] addresses = g.addresses.take (g.count - n)
  withNewLength : ∀ n ≤ g.count, ∃ o, g.withNewLength n = .ok o ∧ o.elim [] addresses = g.addresses.take n

theorem removeEnd_agrees (h : g.HasEnd) (n : ℕ) :
    ∃ o, g.removeEnd n = .ok o ∧ o.elim [] addresses = g.addresses.take (g.count - n) := by
  by_cases hn : n < g.count
  · obtain ⟨g', hnew, -, haddr⟩ := withNewLength_eq (k := g.count - n) (by omega) (by omega) h
    rw [BlockGroup.withNewLength, if_pos (by omega), Nat.sub_sub_self hn.le] at hnew
    exact ⟨some g', hnew, haddr⟩
  · exact ⟨none, if_neg hn, by rw [Nat.sub_eq_zero_of_le (not_lt.1 hn)]; rfl⟩

theorem HasEnd.agrees (h : g.HasEnd) : g.Agrees := by
  obtain ⟨e, he, hlast⟩ := exists_endLba h
  refine ⟨fun last hpast => ?_, ⟨e, he, hlast⟩, fun lba => ?_, fun n => ?_, removeEnd_agrees h, fun n hn => ?_⟩
  · obtain ⟨g', hnew, hstart, hcount⟩ := exists_new g.count_pos hpast
    rw [hnew, BlockGroup.ext hstart hcount]
  · unfold BlockGroup.contains
    split
    case isTrue hle =>
      rw [he, ok_bind]
      refine congrArg Except.ok (decide_eq_decide.2 ?_)
      have hle : g.start.get ≤ lba.get := hle
      rw [mem_blocks, LBA.le_def]
      omega
    case isFalse hlt => exact congrArg Except.ok (decide_eq_false fun hmem => hlt (mem_blocks.1 hmem).1).symm
  · by_cases hn : n < g.count
    · obtain ⟨g', hsub, -, -, haddr⟩ := subgroup_eq hn h
      exact ⟨some g', hsub, haddr⟩
    · refine ⟨none, if_neg hn, (drop_of_length_le ?_).symm⟩
      rw [length_addresses]
      omega
  · obtain ⟨o, ho, haddr⟩ := removeEnd_agrees h (g.count - n)
    rw [Nat.sub_sub_self hn] at haddr
    exact ⟨o, (if_pos hn).trans ho, haddr⟩

theorem not_agrees_single : (single LBA.MAX).Valid ∧ ¬ (single LBA.MAX).Agrees := by
  refine ⟨(by decide : (single LBA.MAX).past < u64Size), fun h => ?_⟩
  obtain ⟨last, hlast, -⟩ := h.endLba
  exact absurd (endLba_eq_ok.1 hlast).1 (by decide)
end BlockGroup

open BlockGroup

/-- `block_iter`: the groups not yet started, the current one, and the index in it. -/
structure BlockGroupListBlockIter where
  groupIter : List BlockGroup
  currentGroup : Option BlockGroup
  currentIndex : ℕ

namespace BlockGroupListBlockIter

/-- The next block in the current group -/
def nextIn (groups : List BlockGroup) (group : BlockGroup) (index : ℕ) :
    Checked (Option (LBA × BlockGroupListBlockIter)) :=
  if index < group.count then do
    let result ← group.start.add index
    if index = group.count - 1 then return some (result, ⟨groups, none, 0⟩)
    else return some (result, ⟨groups, some group, index + 1⟩)
  else .error .panic

/-- The next block, and the iterator after it -/
def next (it : BlockGroupListBlockIter) : Checked (Option (LBA × BlockGroupListBlockIter)) :=
  match it.currentGroup, it.groupIter with
  | some group, groups => nextIn groups group it.currentIndex
  | none, group :: groups => nextIn groups group it.currentIndex
  | none, [] => .ok none

variable {bs : List LBA} {g : BlockGroup} {gs : List BlockGroup}

/-- What is left of the current group comes first. -/
theorem yields_group (hg : g.Valid) (h : Yields next ⟨gs, none, 0⟩ bs) (n k : ℕ) (hk : k + n + 1 = g.count) :
    ∃ bs', Yields next ⟨gs, some g, k⟩ bs' ∧ bs'.map LBA.get = range' (g.start.get + k) (n + 1) ++ bs.map LBA.get := by
  have hvalid : g.start.get + g.count < u64Size := hg
  induction n generalizing k with
  | zero =>
    have hlt : g.start.get + k < u64Size - 1 := by omega
    refine ⟨⟨g.start.get + k, hlt⟩ :: bs, .more ?_ h, rfl⟩
    show nextIn gs g k = _
    rw [nextIn, if_pos (by omega), LBA.add_ok hlt, ok_bind, if_pos (by omega)]
    rfl
  | succ n ih =>
    obtain ⟨bs', hbs, hmap⟩ := ih (k + 1) (by omega)
    have hlt : g.start.get + k < u64Size - 1 := by omega
    refine ⟨⟨g.start.get + k, hlt⟩ :: bs', .more ?_ hbs, congrArg ((g.start.get + k) :: ·) hmap⟩
    show nextIn gs g k = _
    rw [nextIn, if_pos (by omega), LBA.add_ok hlt, ok_bind, if_neg (by omega)]
    rfl

theorem yields_blocks (h : ∀ g ∈ gs, g.Valid) :
    ∃ bs, Yields next ⟨gs, none, 0⟩ bs ∧ bs.map LBA.get = blocksOf gs := by
  induction gs with
  | nil => exact ⟨[], .done rfl, rfl⟩
  | cons g gs ih =>
    obtain ⟨hg, hgs⟩ := forall_mem_cons.1 h
    obtain ⟨bs, hbs, hmap⟩ := ih hgs
    have hpos := g.count_pos
    obtain ⟨bs', hbs', hmap'⟩ := yields_group hg hbs (g.count - 1) 0 (by omega)
    -- taking the group out of the list is part of the first `next`
    refine ⟨bs', hbs'.congr rfl, ?_⟩
    rw [hmap', hmap, Nat.sub_add_cancel hpos]
    rfl
end BlockGroupListBlockIter

/-- **The algebra of block groups** holds for the groups that do not end at the largest address. -/
theorem agrees_iff {g : BlockGroup} {gs : List BlockGroup} (hgs : ∀ x ∈ gs, x.Valid) :
    (g.Agrees ∧ ∃ bs, Yields BlockGroupListBlockIter.next ⟨gs, none, 0⟩ bs ∧ bs.map LBA.get = blocksOf gs) ↔
      g.past < u64Size - 1 := by
  refine ⟨fun h => ?_, fun h => ⟨HasEnd.agrees h, BlockGroupListBlockIter.yields_blocks hgs⟩⟩
  obtain ⟨last, hlast, -⟩ := h.1.endLba
  exact (endLba_eq_ok.1 hlast).1

theorem agrees_zero : (single LBA.ZERO).Agrees ∧ ∃ bs, Yields BlockGroupListBlockIter.next ⟨[single LBA.MAX], none, 0⟩ bs ∧
    bs.map LBA.get = blocksOf [single LBA.MAX] :=
  (agrees_iff (forall_mem_singleton.2 (by decide : (single LBA.MAX).past < u64Size))).2 (by decide)
end WasabiOS
