import WasabiOS.Wfs.MemTree.LockWalk

/-!
# Wfs/MemTree/LockInsert — a writer releases the locks of its path

After `find_leave` a writer holds a ladder of locks.  From there to its return every way through an
insert or a delete releases them all: `unlock_upwards` along the parent pointers, splits and merges one
node at a time on their way up, and where the root is replaced the lock of the old root goes with it.
A node may have a parent pointer that names the wrong node of the level above; the climb then meets a
lock that is not held, which is a panic, and does not return.
-/

open Machinery Prog
namespace WasabiOS
open Store MemTreeNode Function Nat List Set
variable {level level' : Addr → ℤ} {held : Set Addr} {a b : Addr} {n n' : MemTreeNode} {ε : Type} {a : Addr}
  {level : Addr → ℤ} {s : Store D} {top : ℤ}

variable {D : Type}

/-- A tree between calls: it has levels and no lock is taken. -/
structure MemTree.Settled (t : MemTree) : Prop where
  levelled : t.IsLevelled
  unlocked : t.Unlocked

/-- Where it returns or fails, nothing is locked. -/
abbrev Settles {ε α : Type} (m : Prog (Store D) ε α) (s : Store D) : Prop :=
  m.meets (fun _ s' => s'.tree.Settled) (fun _ s' => s'.tree.Settled) True s

/-- A writer on its way up: from level `ℓ` on it still holds the ladder `held`. -/
structure Writer (level : Addr → ℤ) (top ℓ : ℤ) (held : Set Addr) (t : MemTree) : Prop extends
    Levelled level top t where
  rootLock : t.rootLock = true
  ladder : Ladder level top ℓ held
  root_held : ∀ r, t.root.node = some r → r ∈ held
  held_lt : ∀ x ∈ held, x < t.nextAddr

/-- A writer that has climbed to `a` and holds nothing but the ladder from there. -/
abbrev Climber (level : Addr → ℤ) (top : ℤ) (a : Addr) (t : MemTree) : Prop := Writer level top (level a) t.held t

theorem Walker.climber (h : Walker true level top a s.tree) : Climber level top a s.tree := { h.toLevelled with
    rootLock := h.rootLock
    ladder := h.ladder
    root_held := h.root_held rfl
    held_lt := fun _ hx => h.toLevelled.held_lt hx }

namespace Writer
variable {ℓ : ℤ} {s s' : Store D}

/-- The tree changes, but not the root nor its lock. -/
theorem update {t t' : MemTree} (h : Writer level top ℓ held t) (h' : Levelled level' top t')
    (hagree : ∀ x < t.nextAddr, level' x = level x) (hlock : t'.rootLock = t.rootLock)
    (hroot : t'.root.node = t.root.node) (hnext : t.nextAddr ≤ t'.nextAddr) :
    Writer level' top ℓ held t' :=
  { h' with
    rootLock := hlock.trans h.rootLock
    ladder := h.ladder.congr fun x hx => hagree x (h.held_lt x hx)
    root_held := by rw [hroot]; exact h.root_held
    held_lt := fun x hx => (h.held_lt x hx).trans_le hnext }

section
variable (h : Writer level top ℓ held s.tree)
include h

theorem grown (hg : Grown level level' top s s') : Writer level' top ℓ held s'.tree :=
  h.update hg.toLevelled hg.agree hg.rootLock_eq hg.root_eq hg.nextAddr_le

/-- A node is overwritten by one with the same parent. -/
theorem assign (ha : s.tree.nodes a = some n) (hparent : n'.getParent = n.getParent)
    (hlinks : ∀ link ∈ n'.links, LinkFits s.tree.nextAddr level (level a) link) :
    Writer level top ℓ held (s.setNode a (some n')).tree :=
  h.update (h.toLevelled.assign ha hparent hlinks) (fun _ _ => rfl) rfl rfl le_rfl

theorem setLock (ha : s.tree.nodes a = some n) (locked : Bool) :
    Writer level top ℓ held (s.setNode a (some (n.setLock locked))).tree :=
  h.update (h.toLevelled.setLock ha locked) (fun _ _ => rfl) rfl rfl le_rfl

theorem dropNode (a : Addr) : Writer level top ℓ held (s.setNode a none).tree :=
  h.update (h.toLevelled.dropNode a) (fun _ _ => rfl) rfl rfl le_rfl
end

/-- The last lock of a writer is that of the root. -/
theorem held_eq (h : Writer level top (level a) held s.tree) (ha : s.tree.nodes a = some n)
    (hparent : n.getParent = none) : held = {a} :=
  h.ladder.eq_singleton (h.root_held a ((h.orphan a n ha).1 hparent)) (h.root a ((h.orphan a n ha).1 hparent)).2
end Writer

namespace Climber
variable {s s' : Store D}
section
variable (h : Climber level top a s.tree)
include h

theorem grown (ha : a < s.tree.nextAddr) (hg : Grown level level' top s s') : Climber level' top a s'.tree := by
  rw [Climber, hg.held_eq, hg.agree a ha]
  exact Writer.grown h hg

theorem assign (hb : s.tree.nodes b = some n) (hparent : n'.getParent = n.getParent) (hlock : n'.isLocked = n.isLocked)
    (hlinks : ∀ link ∈ n'.links, LinkFits s.tree.nextAddr level (level b) link) :
    Climber level top a (s.setNode b (some n')).tree := by
  rw [Climber, MemTree.held_setNode_of_eq hb hlock]
  exact Writer.assign h hb hparent hlinks

/-- The files of a leave change. -/
theorem assignLeave {parent : Option Addr} {files : Files} {d l : Bool}
    (ha : s.tree.nodes a = some (.leave parent files d l)) (files' : Files) :
    Climber level top a (s.setNode a (some (.leave parent files' true l))).tree :=
  h.assign ha rfl rfl (forall_mem_nil _)

/-! ## Unlocking upwards -/

/-- The lowest node of the ladder, which is not the root, is unlocked. -/
theorem unlock (ha : s.tree.nodes a = some n) (hlocked : n.isLocked = true) (hparent : n.getParent = some b) :
    Climber level top b (s.setNode a (some (n.setLock false))).tree := by
  rw [Climber, MemTree.held_unlock isLocked_setLock]
  refine { h.toLevelled.setLock ha false with
           rootLock := h.rootLock, ladder := ?_, root_held := ?_, held_lt := ?_ }
  · rw [(h.toLevelled.parent ha hparent).2]
    exact h.ladder.pop ((MemTree.mem_held_of_some ha).2 hlocked)
  · intro r hr
    refine ⟨h.root_held r hr, fun heq => ?_⟩
    have hnone := (h.orphan a n ha).2 (mem_singleton_iff.1 heq ▸ hr)
    rw [hparent] at hnone
    cases hnone
  · exact fun x hx => h.held_lt x hx.1

theorem unlockNode {Q : Unit → Store D → Prop} {E : ε → Store D → Prop}
    (ha : s.tree.nodes a = some n) (hparent : n.getParent = some b)
    (hQ : Climber level top b (s.setNode a (some (n.setLock false))).tree →
      Q () (s.setNode a (some (n.setLock false)))) : (Store.unlockNode a).meets Q E True s := by
  rw [meets_unlockNode]
  refine ⟨fun n' ha' => ⟨fun hlocked => ?_, fun _ => trivial⟩, fun _ => trivial⟩
  obtain rfl : n = n' := Option.some.inj (ha.symm.trans ha')
  exact hQ (h.unlock ha hlocked hparent)
end

/-- **`unlock_upwards`**, where it returns, leaves nothing locked: on each level the parent pointer names
the one node that is held there. -/
theorem unlockUpwards : ∀ (fuel : ℕ) {a : Addr} {s : Store D}, Climber level top a s.tree →
    Settles (unlockUpwards fuel a : Prog (Store D) ε Unit) s
  | 0, _, _, _ => trivial
  | fuel + 1, a, s, h => by
    rw [Settles, Store.unlockUpwards, meets_bind, Store.meets_deref]
    refine ⟨fun n ha => ?_, fun _ => trivial⟩
    rw [meets_bind]
    rcases hparent : n.getParent with _ | q
    · simp only [meets_unlockNode, meets_unlockRoot, implies_true, and_true]
      intro n' ha' _ _
      refine ⟨⟨level, top, (h.toLevelled.setLock ha' false).setRootLock false⟩, rfl, ?_⟩
      have hheld := MemTree.held_unlock (s := s) (a := a) (n := n'.setLock false) isLocked_setLock
      rw [h.held_eq ha hparent, sdiff_self] at hheld
      exact hheld
    · exact h.unlockNode ha hparent fun h' => unlockUpwards fuel h'

theorem unlockAll (h : Climber level top a s.tree) : Settles (Store.unlockAll a : Prog (Store D) ε Unit) s := by
  rw [Settles, Store.unlockAll, meets_bind, meets_get]
  exact h.unlockUpwards _
end Climber

/-! ## Insert -/

variable {right : MemTreeNode}

/-- The new root above the old one and its new neighbour. -/
def rootAbove (a right : Addr) (splitId : FileId) : MemTreeNode := .node none (StaticVec.collect
    [({ node := some a, devicePtr := none }, some splitId),
     ({ node := some right, devicePtr := none }, none)]) true true false

/-- The state in which a split root has been put below a new one. -/
def Store.splitRoot (s : Store D) (a : Addr) (n right : MemTreeNode) (splitId : FileId) : Store D :=
  ((((s.addNode right).addNode (rootAbove a s.tree.nextAddr splitId)).setNode a
    (some (n.setParent (some (s.tree.nextAddr + 1))))).setNode s.tree.nextAddr
    (some (right.setParent (some (s.tree.nextAddr + 1))))).setRoot
    { node := some (s.tree.nextAddr + 1), devicePtr := none }

theorem Store.splitRoot_nodes {x : Addr} {m : MemTreeNode} {splitId : FileId}
    (hm : (s.splitRoot a n right splitId).tree.nodes x = some m) :
    (x = s.tree.nextAddr ∧ m = right.setParent (some (s.tree.nextAddr + 1))) ∨
    (x = a ∧ m = n.setParent (some (s.tree.nextAddr + 1))) ∨
    (x = s.tree.nextAddr + 1 ∧ m = rootAbove a s.tree.nextAddr splitId) ∨
    (x ≠ a ∧ s.tree.nodes x = some m) := by
  rw [splitRoot, setRoot_nodes, setNode_nodes, setNode_nodes, addNode_nodes, addNode_nodes] at hm
  split at hm
  case isTrue hx => exact .inl ⟨hx, (Option.some.inj hm).symm⟩
  case isFalse hx =>
    split at hm
    case isTrue hxa => exact .inr (.inl ⟨hxa, (Option.some.inj hm).symm⟩)
    case isFalse hxa =>
      split at hm
      case isTrue hx1 => exact .inr (.inr (.inl ⟨hx1, (Option.some.inj hm).symm⟩))
      case isFalse => exact .inr (.inr (.inr ⟨hxa, hm⟩))

/-- A new root is one level above the old one. -/
theorem Levelled.splitRoot (h : Levelled level top s.tree) (hroot : s.tree.root.node = some a)
    (ha : s.tree.nodes a = some n)
    (hright : ∀ link ∈ right.links, LinkFits s.tree.nextAddr level top link) (splitId : FileId) :
    Levelled (Function.update (Function.update level s.tree.nextAddr top) (s.tree.nextAddr + 1)
      (top + 1)) (top + 1) (s.splitRoot a n right splitId).tree := by
  set level' := Function.update (Function.update level s.tree.nextAddr top) (s.tree.nextAddr + 1) (top + 1) with hlevel'
  have hold : ∀ x < s.tree.nextAddr, level' x = level x := fun x hx => by
    rw [hlevel', update_of_ne (hx.trans (lt_succ_self _)).ne, update_of_ne hx.ne]
  have hnext : level' s.tree.nextAddr = top := by rw [hlevel', update_of_ne (lt_succ_self _).ne, update_self]
  have hnew : level' (s.tree.nextAddr + 1) = top + 1 := update_self ..
  obtain ⟨halt, hatop⟩ := h.root a hroot
  have halevel : level' a = top := (hold a halt).trans hatop
  have hle : s.tree.nextAddr ≤ s.tree.nextAddr + 1 + 1 := (le_succ _).trans (le_succ _)
  have hup : ∀ q, some (s.tree.nextAddr + 1) = some q → q < s.tree.nextAddr + 1 + 1 ∧ level' q = top + 1 := by
    intro q hq
    obtain rfl := Option.some.inj hq
    exact ⟨lt_succ_self _, hnew⟩
  refine .of_placed hup fun x m hm => ?_
  have hrootNode : (s.splitRoot a n right splitId).tree.root.node = some (s.tree.nextAddr + 1) := rfl
  rw [Placed, hrootNode, Option.some.injEq]
  rcases splitRoot_nodes hm with ⟨rfl, rfl⟩ | ⟨rfl, rfl⟩ | ⟨rfl, rfl⟩ | ⟨hxa, hx⟩
  · rw [hnext, getParent_setParent]
    refine ⟨(lt_succ_self _).trans (lt_succ_self _), ⟨fun link hlink => ?_, ?_⟩,
      iff_of_false (by simp) (lt_succ_self _).ne'⟩
    · rw [links_setParent] at hlink
      exact (hright link hlink).mono hle hold
    · rw [getParent_setParent]
      exact hup
  · rw [halevel, getParent_setParent]
    refine ⟨halt.trans_le hle, ⟨fun link hlink => ?_, ?_⟩, iff_of_false (by simp) (halt.trans (lt_succ_self _)).ne'⟩
    · rw [links_setParent] at hlink
      exact hatop ▸ ((h.fits x n ha).links link hlink).mono hle hold
    · rw [getParent_setParent]
      exact hup
  · refine ⟨lt_succ_self _, nodeFits_node.2 ⟨fun c hc => ?_, fun q hq => by cases hq⟩, iff_of_true rfl rfl⟩
    rw [hnew]
    rcases mem_of_mem_take hc with _ | ⟨_, _ | ⟨_, hc⟩⟩
    · intro b hb
      obtain rfl := Option.some.inj hb
      exact ⟨halt.trans_le hle, by rw [halevel]⟩
    · intro b hb
      obtain rfl := Option.some.inj hb
      exact ⟨(lt_succ_self _).trans (lt_succ_self _), by rw [hnext]⟩
    · cases hc
  · have hlt := h.bound x m hx
    have horphan := h.orphan x m hx
    rw [hroot, Option.some.injEq] at horphan
    rw [hold x hlt]
    exact ⟨hlt.trans_le hle, (h.fits x m hx).mono hle hold,
      iff_of_false (fun hnone => hxa (horphan.1 hnone).symm) (hlt.trans (lt_succ_self _)).ne'⟩

/-- A new root brings no held lock. -/
theorem held_splitRoot_subset (ha : s.tree.nodes a = some n) (hlock : right.isLocked = false)
    (splitId : FileId) : (s.splitRoot a n right splitId).tree.held ⊆ s.tree.held := by
  rintro x ⟨m, hm, hlocked⟩
  rcases splitRoot_nodes hm with ⟨-, rfl⟩ | ⟨rfl, rfl⟩ | ⟨-, rfl⟩ | ⟨-, hx⟩
  · rw [isLocked_setParent, hlock] at hlocked
    cases hlocked
  · rw [isLocked_setParent] at hlocked
    exact ⟨n, ha, hlocked⟩
  · cases hlocked
  · exact ⟨m, hx, hlocked⟩

/-- `insert_split_at_root` -/
theorem Climber.insertSplitAtRoot (h : Climber level top a s.tree)
    (hright : ∀ link ∈ right.links, LinkFits s.tree.nextAddr level (level a) link)
    (hlock : right.isLocked = false) (splitId : FileId) : Settles (Store.insertSplitAtRoot a splitId right) s := by
  simp only [Store.insertSplitAtRoot, meets_bind, Store.meets_deref, meets_assert,
    Store.meets_unlockNode, Store.meets_getLink_root, meets_expect, Store.meets_allocNode,
    Store.meets_assign, Store.meets_setLink_root, Store.meets_unlockRoot, implies_true, and_true]
  intro n ha hnone n' ha' hlocked oldRoot hroot hold m hm m' hm' _
  obtain rfl : n = n' := Option.some.inj (ha.symm.trans ha')
  obtain rfl : oldRoot = a := of_decide_eq_true hold
  have hlt : oldRoot < (s.setNode oldRoot (some (n.setLock false))).tree.nextAddr := h.toLevelled.bound oldRoot n ha
  have htop := (h.toLevelled.root oldRoot hroot).2
  have hself : (s.setNode oldRoot (some (n.setLock false))).tree.nodes oldRoot =
      some (n.setLock false) := setNode_nodes_self
  -- the new boxes are elsewhere
  obtain rfl : n.setLock false = m := by
    rw [addNode_nodes_of_ne (hlt.trans (lt_succ_self _)).ne, addNode_nodes_of_ne hlt.ne, hself] at hm
    exact Option.some.inj hm
  obtain rfl : right = m' := by
    rw [setNode_nodes_of_ne hlt.ne', addNode_nodes_of_ne (lt_succ_self _).ne, addNode_nodes_self] at hm'
    exact Option.some.inj hm'
  have hlevelled := (h.toLevelled.setLock ha false).splitRoot hroot hself (htop ▸ hright) splitId
  refine ⟨⟨_, _, hlevelled.setRootLock false⟩, rfl, ?_⟩
  have hsub := held_splitRoot_subset hself hlock splitId
  rw [MemTree.held_unlock isLocked_setLock, h.held_eq ha (Option.isNone_iff_eq_none.1 hnone), sdiff_self] at hsub
  exact subset_empty_iff.1 hsub

/-- **`insert_split`** -/
theorem Climber.insertSplit : ∀ (fuel : ℕ) {level : Addr → ℤ} {current oldNode : Addr}
    {oldMax newMax : FileId} {newNode : MemTreeNode} {s : Store D}, Climber level top current s.tree →
    NodeFits s.tree.nextAddr level (level current - 1) newNode → newNode.getParent ≠ none →
    newNode.isLocked = false → Settles (insertSplit fuel current oldNode oldMax newNode newMax) s
  | 0, _, _, _, _, _, _, _, _, _, _, _ => trivial
  | fuel + 1, level, current, oldNode, oldMax, newMax, newNode, s, h, hfits, hparent, hlock => by
    rw [Settles, Store.insertSplit, meets_bind, Store.meets_deref]
    refine ⟨fun n hn => ?_, fun _ => trivial⟩
    rcases n with ⟨nextParent, children, d, dc, l⟩ | ⟨p, files, d, l⟩
    · rw [meets_bind, Store.meets_allocNode]
      -- the new node is one level below, and so is every link that goes into `current` from here on
      have hg := h.toLevelled.addNode hfits hparent hlock
      have hlt := h.toLevelled.bound current _ hn
      have hw := h.grown hlt hg
      have hn1 : (s.addNode newNode).tree.nodes current = some (.node nextParent children d dc l) := by
        rw [addNode_nodes_of_ne hlt.ne, hn]
      set level1 := Function.update level s.tree.nextAddr (level current - 1) with hlevel1
      have hcurrent : level current = level1 current := (hg.agree current hlt).symm
      have hold : ∀ c ∈ children.toList, LinkFits (s.addNode newNode).tree.nextAddr level1 (level1 current) c.1 :=
        fun c hc => hg.toLevelled.child hn1 hc
      have hnew : LinkFits (s.addNode newNode).tree.nextAddr level1 (level1 current)
          { node := some s.tree.nextAddr, devicePtr := none } := by
        intro b hb
        obtain rfl := Option.some.inj hb
        refine ⟨lt_succ_self _, ?_⟩
        rw [← hcurrent, hlevel1, update_self]
        omega
      have hput : ∀ children' : Children, (∀ c ∈ children'.toList,
            LinkFits (s.addNode newNode).tree.nextAddr level1 (level1 current) c.1) →
          Climber level1 top current ((s.addNode newNode).setNode current
            (some (.node nextParent children' true dc l))).tree :=
        fun children' hchildren' => hw.assign hn1 rfl rfl (forall_mem_map.2 hchildren')
      simp only [meets_bind, meets_expect, meets_assert, implies_true, and_true]
      intro oldPosition _ _
      split
      case isTrue =>
        simp only [meets_bind, meets_expect, meets_lift, meets_assign, implies_true, and_true]
        intro old holdChild children1 hset children2 hinsert
        refine (hput children2 fun c hc => ?_).unlockAll
        rcases StaticVec.mem_of_insert hinsert hc with rfl | hc
        · exact hnew
        · rcases StaticVec.mem_of_setIdx hset hc with rfl | hc
          · exact hold old (mem_of_getElem? holdChild)
          · exact hold c hc
      case isFalse =>
        simp only [meets_bind, meets_expect, meets_lift, meets_assert, meets_assign, implies_true, and_true]
        rintro ⟨left, right⟩ hdrain _ ⟨left', right'⟩ hhalves last _ splitId _
        have hmem : ∀ c, c ∈ left'.toList ∨ c ∈ right'.toList →
            LinkFits (s.addNode newNode).tree.nextAddr level1 (level1 current) c.1 := by
          have hhalf : ∀ c, c ∈ left.toList ∨ c ∈ right.toList → LinkFits _ level1 (level1 current) c.1 :=
            fun c hc => hold c (StaticVec.mem_of_drain hdrain hc)
          intro c hc
          split at hhalves
          case isTrue =>
            obtain ⟨w, hinsert, hpair⟩ := bind_eq_ok.1 hhalves
            cases pure_eq_ok.1 hpair
            rcases hc with hc | hc
            · rcases StaticVec.mem_of_insert hinsert hc with rfl | hc
              · exact hnew
              · exact hhalf c (.inl hc)
            · exact hhalf c (.inr hc)
          case isFalse =>
            obtain ⟨w, hinsert, hpair⟩ := bind_eq_ok.1 hhalves
            cases pure_eq_ok.1 hpair
            rcases hc with hc | hc
            · exact hhalf c (.inl hc)
            · rcases StaticVec.mem_of_insert hinsert hc with rfl | hc
              · exact hnew
              · exact hhalf c (.inr hc)
        have hleft := hput left' fun c hc => hmem c (.inl hc)
        have hright : NodeFits (s.addNode newNode).tree.nextAddr level1 (level1 current)
            (.node nextParent right' true true false) :=
          nodeFits_node.2 ⟨fun c hc => hmem c (.inr hc), (hg.fits current _ hn1).parent⟩
        rcases nextParent with _ | parent
        · exact hleft.insertSplitAtRoot hright.links rfl splitId
        · have hcur : ((s.addNode newNode).setNode current
              (some (.node (some parent) left' true dc l))).tree.nodes current =
                some (.node (some parent) left' true dc l) := setNode_nodes_self
          have hlevel : level1 parent - 1 = level1 current := by
            rw [(hleft.toLevelled.parent hcur rfl).2]
            omega
          rw [meets_bind]
          refine hleft.unlockNode hcur rfl fun hup => hup.insertSplit fuel ?_ (by simp) rfl
          rw [hlevel]
          exact hright
    · trivial

/-- **`insert`**, from the leave on. -/
theorem Walker.insertInto (h : Walker true level top a s.tree) (file : FileNode) (createOnly : Bool) :
    Settles (Store.insertInto a file createOnly) s := by
  rw [Settles, Store.insertInto, meets_bind, Store.meets_deref]
  refine ⟨fun n ha => ?_, fun _ => trivial⟩
  rcases n with ⟨p, cs, d, dc, l⟩ | ⟨parent, files, d, l⟩
  · trivial
  have hput := h.climber.assignLeave ha
  simp only
  split
  case h_1 =>
    split
    case isTrue =>
      rw [meets_bind]
      exact h.climber.unlockAll
    case isFalse =>
      simp only [meets_bind, meets_lift, meets_assign, implies_true, and_true]
      intro files' _
      exact (hput files').unlockAll
  case h_2 =>
    split
    case isTrue =>
      simp only [meets_bind, meets_lift, meets_assign, implies_true, and_true]
      intro files' _
      exact (hput files').unlockAll
    case isFalse =>
      simp only [meets_bind, meets_lift, meets_expect, meets_assign, implies_true, and_true]
      rintro ⟨left, right⟩ hsplit splitFile _ newNodeMax _
      have hself : (s.setNode a (some (.leave parent left true l))).tree.nodes a =
        some (.leave parent left true l) := setNode_nodes_self
      rcases parent with _ | p
      · exact (hput left).insertSplitAtRoot (forall_mem_nil _) rfl _
      · have hlevel := (hput left).toLevelled.parent hself rfl
        rw [meets_bind]
        refine (hput left).unlockNode hself rfl fun hup => ?_
        rw [meets_bind, meets_get]
        refine hup.insertSplit _ (nodeFits_leave.2 fun q hq => ?_) (by simp) rfl
        obtain rfl := Option.some.inj hq
        exact ⟨hlevel.1, by omega⟩
end WasabiOS
