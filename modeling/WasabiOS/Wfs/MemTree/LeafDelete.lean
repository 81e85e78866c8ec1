import WasabiOS.Wfs.MemTree.Lookup
import WasabiOS.Wfs.MemTree.MapRuns

/-!
# Wfs/MemTree/LeafDelete — deleting below an inner root

Whichever leaves are loaded, a leave that gets too small finds a neighbour to take a file from or to merge with,
and a root that is left with one leave gives way to it.
-/

open Machinery Prog Machinery.Keyed
namespace WasabiOS
open List

/-- A file stands for its id. -/
def FileView.ids : FileView FileId where
  key := id
  mem _ f := f.id
  Held _ _ := True
  Loads := True
  load g := g.id
  OnDisk _ _ _ _ := True
  key_mem _ _ := rfl
  mem_congr _ _ := rfl
  held_mono _ _ := trivial
  mem_ofFs _ := FileNode.ofFs_id ..
  held_ofFs _ := trivial
  onDisk_load _ := trivial

/-- Ten files on the device. -/
def tenFiles (first : ℕ) : List FsFileNode := (range' first 10).map fun k => { lastFile with id := (numbered k).id }

/-- A tree with twenty files in two leaves, nothing of it in memory. -/
def twoLeaves : Store (Disk Block) where
  tree := { MemTree.empty with root := ⟨none, some ⟨.ZERO⟩⟩, nodes := fun _ => none }
  allocator := noBlocks.1
  device := { noBlocks.2 with
      blocks := fun lba =>
        if lba = .ZERO then .treeNode (.node (.collect [(⟨.ONE⟩, some (numbered 9).id), (⟨.MAX⟩, none)]))
        else .treeNode (.leave (.collect (tenFiles (if lba = .ONE then 0 else 10)))) }

/-- What the tree stands for. -/
def twoLeavesShape : List (Child FileId) :=
  [⟨⟨none, some ⟨.ONE⟩⟩, some (numbered 9).id, (tenFiles 0).map (·.id), false, false⟩,
    ⟨⟨none, some ⟨.MAX⟩⟩, none, (tenFiles 10).map (·.id), false, false⟩]

theorem rep_twoLeaves : Rep .ids twoLeaves twoLeaves false (.node ⟨none, some ⟨.ZERO⟩⟩ twoLeavesShape false false) := by
  refine ⟨⟨trivial, .refl _, rfl, rfl, fun _ _ => rfl⟩, rfl, rfl, ⟨_, _, rfl, rfl, rfl⟩, ?_⟩
  exact forall_mem_cons.2 ⟨⟨rfl, rfl, rfl, trivial, _, _, rfl, rfl, rfl⟩,
    forall_mem_singleton.2 ⟨rfl, rfl, rfl, trivial, _, _, rfl, rfl, rfl⟩⟩

theorem valid_twoLeaves : Child.Valid FileView.ids.key twoLeavesShape where
  chained := ⟨by decide, by decide, by decide, rfl⟩
  fits := forall_mem_cons.2 ⟨⟨(by decide : ((tenFiles 0).map (·.id)).Pairwise (· < ·)), by decide, by decide⟩,
    forall_mem_singleton.2 ⟨(by decide : ((tenFiles 10).map (·.id)).Pairwise (· < ·)), by decide, by decide⟩⟩
  two_le := le_rfl
  unlocked := by decide

end WasabiOS
