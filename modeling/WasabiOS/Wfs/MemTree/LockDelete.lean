import WasabiOS.Wfs.MemTree.LockInsert

/-!
# Wfs/MemTree/LockDelete — rebalancing releases the locks it takes

To rebalance, a delete locks two neighbours below the node it has climbed to, besides the ladder of
that node.  A rotation and a merge release both, and the climb goes on with the ladder as it was.  The
blocks of siblings may have to be read here; if that fails the guard of the parent is dropped, which
is a panic.
-/

open Machinery Prog
namespace WasabiOS
open Store StaticVec MemTreeNode MemTree List Set
variable {level level' : Addr → ℤ} {top : ℤ} {parent : Addr} {held : Set Addr} {r : ChildrenForRebalance}
  {n n' : MemTreeNode} {ε : Type} {leftParent rightParent : Option Addr} {leftFiles rightFiles : Files}
  {ld rd ll rl : Bool} {i : ℕ}

variable {D : Type} {s s' : Store D} {E : ε → Store D → Prop}
open Store (ChildrenForRebalance)

/-- Two neighbours below `node` have been locked, and nodes may have been loaded before. -/
structure PairLocked (level level' : Addr → ℤ) (top : ℤ) (node : Addr) (s s' : Store D)
    (r : ChildrenForRebalance) : Prop extends Levelled level' top s'.tree where
  agree : ∀ x < s.tree.nextAddr, level' x = level x
  nextAddr_le : s.tree.nextAddr ≤ s'.tree.nextAddr
  rootLock_eq : s'.tree.rootLock = s.tree.rootLock
  root_eq : s'.tree.root.node = s.tree.root.node
  held_eq : s'.tree.held = insert r.right (insert r.left s.tree.held)
  left_free : r.left ∉ s.tree.held
  right_free : r.right ∉ s.tree.held
  ne : r.left ≠ r.right
  left_level : level' r.left + 1 = level' node
  right_level : level' r.right + 1 = level' node

/-- A variant of the rebalancing was tried: at most nodes were loaded, or it fits. -/
def Tried (level : Addr → ℤ) (top : ℤ) (node : Addr) (s : Store D) (r : Option ChildrenForRebalance)
    (s' : Store D) : Prop :=
  ∃ level', (r = none ∧ Grown level level' top s s') ∨ ∃ r', r = some r' ∧ PairLocked level level' top node s s' r'

section Variants
variable {node : Addr} {s'' : Store D} {level1 : Addr → ℤ}

theorem PairLocked.after (hg : Grown level level1 top s s')
    (h : PairLocked level1 level' top node s' s'' r) : PairLocked level level' top node s s'' r :=
  { h with
    agree := fun x hx => (h.agree x (hx.trans_le hg.nextAddr_le)).trans (hg.agree x hx)
    nextAddr_le := hg.nextAddr_le.trans h.nextAddr_le
    rootLock_eq := h.rootLock_eq.trans hg.rootLock_eq
    root_eq := h.root_eq.trans hg.root_eq
    held_eq := by rw [h.held_eq, hg.held_eq]
    left_free := hg.held_eq ▸ h.left_free
    right_free := hg.held_eq ▸ h.right_free }

theorem Tried.after {r : Option ChildrenForRebalance}
    (hg : Grown level level1 top s s') (h : Tried level1 top node s' r s'') :
    Tried level top node s r s'' := by
  obtain ⟨level', ⟨rfl, hg'⟩ | ⟨r', rfl, hp⟩⟩ := h
  · exact ⟨level', .inl ⟨rfl, hg.trans hg'⟩⟩
  · exact ⟨level', .inr ⟨r', rfl, hp.after hg⟩⟩

/-- `get_lock().lock()` of both neighbours -/
theorem Levelled.lockPair (h : Levelled level top s.tree) {left right : Option Addr}
    (hleft : ∀ a, left = some a → level a + 1 = level node)
    (hright : ∀ a, right = some a → level a + 1 = level node)
    (fits : MemTreeNode → MemTreeNode → Bool) (i : ℕ) (mode : Store.DeleteRebalanceMode) :
    (lockPair left right fits i mode : Prog (Store D) FsError _).meets
      (Tried level top node s) (fun _ _ => True) True s := by
  have hnone : Tried level top node s none s := ⟨level, .inl ⟨rfl, .refl h⟩⟩
  rcases left with _ | left
  · exact hnone
  rcases right with _ | right
  · exact hnone
  simp only [Store.lockPair, meets_bind, Store.meets_deref, implies_true, and_true]
  intro l hl r hr
  split
  case isFalse => exact hnone
  case isTrue =>
    simp only [meets_bind, meets_lockNode, meets_pure, implies_true, and_true]
    intro n hn hfree m hm hfree'
    have hne : left ≠ right := by
      rintro rfl
      obtain rfl := Option.some.inj (setNode_nodes_self.symm.trans hm)
      rw [isLocked_setLock] at hfree'
      cases hfree'
    have hm' : s.tree.nodes right = some m := by rw [← hm, setNode_nodes_of_ne hne.symm]
    have hnot : ∀ {a n}, s.tree.nodes a = some n → n.isLocked = false → a ∉ s.tree.held := by
      intro a n ha hlock hmem
      rw [mem_held_of_some ha, hlock] at hmem
      cases hmem
    refine ⟨level, .inr ⟨_, rfl, { (h.setLock hn true).setLock hm true with
      agree := fun _ _ => rfl
      nextAddr_le := le_rfl
      rootLock_eq := rfl
      root_eq := rfl
      held_eq := ?_
      left_free := hnot hn hfree
      right_free := hnot hm' hfree'
      ne := hne
      left_level := hleft left rfl
      right_level := hright right rfl }⟩⟩
    rw [held_lock isLocked_setLock, held_lock isLocked_setLock]

variable [BlockDevice D Block]

/-- Loading a sibling, where a failure says nothing. -/
theorem Levelled.loadChild (h : Levelled level top s.tree) (a : Addr) (i : ℕ) :
    (resolve (.child a i) (some a) : Prog (Store D) FsError Addr).meets
      (fun _ s' => ∃ level', Grown level level' top s s') (fun _ _ => True) True s := by
  have hget : ∀ {Q : Children → Store D → Prop}, (∀ p cs d dc l, s.tree.nodes a = some (.node p cs d dc l) → Q cs s) →
      (getChildren a : Prog (Store D) FsError _).meets Q (fun _ _ => True) True s :=
    meets_getChildren_true.2
  by_cases hnode : ∃ p cs d dc l c, s.tree.nodes a = some (.node p cs d dc l) ∧ cs.toList[i]? = some c
  · obtain ⟨p, cs, d, dc, l, c, ha, hc⟩ := hnode
    exact h.meets_resolve_child ha hc (fun _ _ => ⟨level, .refl h⟩)
      (fun _ _ _ _ _ _ level' _ _ _ hg _ _ _ _ => ⟨level', hg⟩) (fun _ _ _ _ _ _ => trivial)
      (fun _ _ => trivial) fun _ _ _ _ _ => trivial
  · rw [resolve, meets_bind, getLink, meets_bind]
    refine hget fun p cs d dc l ha => ?_
    rw [meets_bind, meets_expect]
    exact ⟨fun c hc => absurd ⟨p, cs, d, dc, l, c, ha, hc⟩ hnode, fun _ => trivial⟩

omit [BlockDevice D Block] in
/-- The link of a child leads one level down. -/
theorem Levelled.getChildLink {Q : MemTreeLink → Store D → Prop} {E : FsError → Store D → Prop}
    (h : Levelled level top s.tree) (a : Addr) (i : ℕ)
    (hQ : ∀ link : MemTreeLink, (∀ b, link.node = some b → level b + 1 = level a) → Q link s) :
    (getLink (.child a i) : Prog (Store D) FsError _).meets Q E True s := by
  simp only [getLink, meets_bind, meets_getChildren_true, meets_expect, meets_pure, implies_true, and_true]
  intro p cs d dc l ha c hc
  exact hQ c.1 fun b hb => (h.child ha (mem_of_getElem? hc) b hb).2

variable {β : Type} {Q : β → Store D → Prop} {rest : Prog (Store D) FsError β}

/-- A sibling is loaded first. -/
theorem Levelled.afterLoad (h : Levelled level top s.tree) {a : Addr}
    (hrest : ∀ level1 s1, Grown level level1 top s s1 → rest.meets Q (fun _ _ => True) True s1) :
    (resolve (.child a i) (some a) >>= fun _ => rest).meets Q (fun _ _ => True) True s := by
  rw [meets_bind]
  refine meets_mono (h.loadChild a i) ?_ (fun _ _ he => he) fun hf => hf
  rintro _ s1 ⟨level1, hg⟩
  exact hrest level1 s1 hg

/-- A sibling is loaded first, or not. -/
theorem Levelled.afterLoad_if (h : Levelled level top s.tree) {a : Addr} {load : Bool}
    (hrest : ∀ level1 s1, Grown level level1 top s s1 → rest.meets Q (fun _ _ => True) True s1) :
    (if load = true then resolve (.child a i) (some a) >>= fun _ => rest else rest).meets Q
      (fun _ _ => True) True s := by
  split
  case isTrue => exact h.afterLoad hrest
  case isFalse => exact hrest level s (.refl h)

/-- One variant of `get_children_for_rebalance` -/
theorem Levelled.tryVariant (h : Levelled level top s.tree) (i : ℕ) (v : Store.RebalanceVariants) (load : Bool) :
    (Store.tryVariant node i v load : Prog (Store D) FsError _).meets (Tried level top node s)
      (fun _ _ => True) True s := by
  have hpair : ∀ {level1 s1 left right} (fits) (j) (mode), Grown level level1 top s s1 →
      (∀ a, left = some a → level1 a + 1 = level1 node) →
      (∀ a, right = some a → level1 a + 1 = level1 node) →
      (Store.lockPair left right fits j mode : Prog (Store D) FsError _).meets (Tried level top node s)
        (fun _ _ => True) True s1 := by
    intro level1 s1 left right fits j mode hg hleft hright
    exact meets_mono (hg.lockPair hleft hright fits j mode) (fun _ _ ht => ht.after hg) (fun _ _ he => he) fun hf => hf
  -- the links of the two neighbours, whatever was loaded before
  have hlinks : ∀ {level1 s1} (j k : ℕ)
      {rest : MemTreeLink → MemTreeLink → Prog (Store D) FsError (Option ChildrenForRebalance)},
      Grown level level1 top s s1 →
      (∀ left right : MemTreeLink, (∀ a, left.node = some a → level1 a + 1 = level1 node) →
        (∀ a, right.node = some a → level1 a + 1 = level1 node) →
        (rest left right).meets (Tried level top node s) (fun _ _ => True) True s1) →
      (getLink (.child node j) >>= fun left => getLink (.child node k) >>= fun right =>
        rest left right).meets (Tried level top node s) (fun _ _ => True) True s1 := by
    intro level1 s1 j k rest hg hrest
    rw [meets_bind]
    refine hg.getChildLink node j fun left hleft => ?_
    rw [meets_bind]
    exact hg.getChildLink node k fun right hright => hrest left right hleft hright
  cases v with
  | merge l r =>
    have hend := fun level1 s1 (hg : Grown level level1 top s s1) => hlinks l r hg
      fun left right hleft hright => hpair (fun a b => a.len + b.len ≤ a.cap) l (.merge l) hg hleft hright
    rw [Store.tryVariant]
    split
    case isTrue =>
      refine h.afterLoad fun level1 s1 hg1 => hg1.toLevelled.afterLoad fun level2 s2 hg2 => ?_
      exact hend level2 s2 (hg1.trans hg2)
    case isFalse => exact hend level s (.refl h)
  | takeFromRight =>
    rw [Store.tryVariant]
    refine h.afterLoad_if fun level1 s1 hg => hlinks i (i + 1) hg fun left right hleft hright => ?_
    rw [meets_bind, meets_expect]
    refine ⟨fun a ha => hpair _ _ _ hg (fun b hb => hleft b ?_) hright, fun _ => trivial⟩
    exact ha.trans hb
  | takeFromLeft =>
    rw [Store.tryVariant]
    refine h.afterLoad_if fun level1 s1 hg => hlinks (i - 1) i hg fun left right hleft hright => ?_
    rcases hnode : left.node with _ | a
    · exact ⟨level1, .inl ⟨rfl, hg⟩⟩
    · simp only [meets_bind, meets_expect, implies_true, and_true]
      intro b hb
      refine hpair _ _ _ hg (fun x hx => hleft x (hnode.trans hx)) fun x hx => hright x ?_
      exact hb.trans hx

/-- **`get_children_for_rebalance`** -/
theorem Levelled.tryVariants (h : Levelled level top s.tree) (i : ℕ) :
    ∀ (vs : List (Store.RebalanceVariants × Bool)) {level1 : Addr → ℤ} {s1 : Store D}, Grown level level1 top s s1 →
      (tryVariants node i vs : Prog (Store D) FsError _).meets
        (fun r s' => ∃ level', PairLocked level level' top node s s' r) (fun _ _ => True) True s1
  | [], _, _, _ => trivial
  | (v, load) :: vs, level1, s1, hg => by
    rw [Store.tryVariants, meets_bind]
    refine meets_mono (hg.toLevelled.tryVariant i v load) ?_ (fun _ _ he => he) fun hf => hf
    rintro r s2 ⟨level2, ⟨rfl, hg2⟩ | ⟨r, rfl, hp⟩⟩
    · exact h.tryVariants i vs (hg.trans hg2)
    · exact ⟨level2, hp.after hg⟩

theorem Levelled.childrenForRebalance {E : MemTreeError → Store D → Prop}
    (h : Levelled level top s.tree) (unbalanced : Addr) :
    (childrenForRebalance node unbalanced : Prog (Store D) MemTreeError _).meets
      (fun r s' => ∃ level', PairLocked level level' top node s s' r) E True s := by
  have hget : (getChildrenForRebalance node unbalanced : Prog (Store D) FsError _).meets
      (fun r s' => ∃ level', PairLocked level level' top node s s' r) (fun _ _ => True) True s := by
    rw [getChildrenForRebalance, meets_bind, meets_deref]
    refine ⟨fun n _ => ?_, fun _ => trivial⟩
    cases n with
    | leave p files d l => trivial
    | node p cs d dc l =>
      simp only [meets_bind, meets_assert, meets_expect, implies_true, and_true]
      intro _ _ i _
      exact h.tryVariants i _ (.refl h)
  rw [Store.childrenForRebalance, meets_bind, Prog.meets_attempt]
  exact meets_mono hget (fun _ _ hr => hr) (fun _ _ _ => trivial) fun hf => hf
end Variants

/-! ## Two locked neighbours -/

/-- Below `parent`, up from which the writer holds the ladder `held`, two neighbours are locked: `nl` and
`nr`. -/
structure Rotating (level : Addr → ℤ) (top : ℤ) (parent : Addr) (held : Set Addr)
    (r : ChildrenForRebalance) (nl nr : MemTreeNode) (t : MemTree) : Prop extends
    Writer level top (level parent) held t where
  parent_lt : parent < t.nextAddr
  held_eq : t.held = insert r.right (insert r.left held)
  left_free : r.left ∉ held
  right_free : r.right ∉ held
  ne : r.left ≠ r.right
  left_level : level r.left + 1 = level parent
  right_level : level r.right + 1 = level parent
  left_node : t.nodes r.left = some nl
  right_node : t.nodes r.right = some nr

theorem Climber.rotating {nl nr : MemTreeNode} (h : Climber level top parent s.tree)
    (hparent : parent < s.tree.nextAddr) (hp : PairLocked level level' top parent s s' r)
    (hl : s'.tree.nodes r.left = some nl) (hr : s'.tree.nodes r.right = some nr) :
    Rotating level' top parent s.tree.held r nl nr s'.tree := by
  have hw := h.update hp.toLevelled hp.agree hp.rootLock_eq hp.root_eq hp.nextAddr_le
  rw [← hp.agree parent hparent] at hw
  exact { hw, hp with
    parent_lt := hparent.trans_le hp.nextAddr_le
    left_node := hl
    right_node := hr }

namespace Rotating
variable {nl nr : MemTreeNode}
section
variable (h : Rotating level top parent held r nl nr s.tree)
include h

theorem level_eq : level r.left = level r.right := by
  have := h.left_level
  have := h.right_level
  omega

/-- Both neighbours have a parent: the root is locked already. -/
theorem left_parent : nl.getParent ≠ none :=
  fun hnone => h.left_free (h.root_held r.left ((h.orphan r.left nl h.left_node).1 hnone))

theorem assignLeft (hparent : n'.getParent = nl.getParent) (hlock : n'.isLocked = nl.isLocked)
    (hlinks : ∀ link ∈ n'.links, LinkFits s.tree.nextAddr level (level r.left) link) :
    Rotating level top parent held r n' nr (s.setNode r.left (some n')).tree :=
  { h.toWriter.assign h.left_node hparent hlinks, h with
    held_eq := (held_setNode_of_eq h.left_node hlock).trans h.held_eq
    left_node := setNode_nodes_self
    right_node := (setNode_nodes_of_ne h.ne.symm).trans h.right_node }

theorem assignRight (hparent : n'.getParent = nr.getParent) (hlock : n'.isLocked = nr.isLocked)
    (hlinks : ∀ link ∈ n'.links, LinkFits s.tree.nextAddr level (level r.right) link) :
    Rotating level top parent held r nl n' (s.setNode r.right (some n')).tree :=
  { h.toWriter.assign h.right_node hparent hlinks, h with
    held_eq := (held_setNode_of_eq h.right_node hlock).trans h.held_eq
    left_node := (setNode_nodes_of_ne h.ne).trans h.left_node
    right_node := setNode_nodes_self }

theorem assignParent (hn : s.tree.nodes parent = some n) (hparent : n'.getParent = n.getParent)
    (hlock : n'.isLocked = n.isLocked)
    (hlinks : ∀ link ∈ n'.links, LinkFits s.tree.nextAddr level (level parent) link) :
    Rotating level top parent held r nl nr (s.setNode parent (some n')).tree :=
  { h.toWriter.assign hn hparent hlinks, h with
    held_eq := (held_setNode_of_eq hn hlock).trans h.held_eq
    left_node := (setNode_nodes_of_ne (ne_of_apply_ne level (by have := h.left_level; omega))).trans h.left_node
    right_node := (setNode_nodes_of_ne (ne_of_apply_ne level (by have := h.right_level; omega))).trans h.right_node }

variable {Q : Unit → Store D → Prop}

/-- The separator between the neighbours changes. -/
theorem setMax (i : ℕ) (max : Option FileId) (hQ : ∀ s', s'.tree.nextAddr = s.tree.nextAddr →
      Rotating level top parent held r nl nr s'.tree → Q () s') :
    (Store.setMax parent i max : Prog (Store D) ε Unit).meets Q E True s := by
  simp only [Store.setMax, meets_bind, Store.meets_getChildren_true, meets_expect, meets_lift, implies_true, and_true]
  intro p cs d dc l hn c hc cs' hset
  rw [Store.meets_setChildren hn]
  refine hQ _ rfl (h.assignParent hn rfl rfl (forall_mem_map.2 fun e he => ?_))
  rcases mem_of_setIdx hset he with rfl | he
  · exact h.toLevelled.child (c := c) hn (mem_of_getElem? hc)
  · exact h.toLevelled.child hn he

/-- Both locks are released, and the ladder is as it was. -/
theorem release (hQ : ∀ s', s'.tree.nextAddr = s.tree.nextAddr → s'.tree.held = held →
      Climber level top parent s'.tree → Q () s') :
    (unlockNode r.left : Prog (Store D) ε Unit).meets
      (fun _ s' => (unlockNode r.right).meets Q E True s') E True s := by
  simp only [meets_unlockNode, implies_true, and_true]
  intro n hn _ m hm _
  have hleft : r.left ∉ insert r.right held := fun hmem => (mem_insert_iff.1 hmem).elim h.ne h.left_free
  have hheld : ((s.setNode r.left (some (n.setLock false))).setNode r.right
      (some (m.setLock false))).tree.held = held := by
    rw [held_unlock isLocked_setLock, held_unlock isLocked_setLock, h.held_eq, insert_comm,
      insert_sdiff_self_of_notMem hleft, insert_sdiff_self_of_notMem h.right_free]
  refine hQ _ rfl hheld ?_
  rw [Climber, hheld]
  exact (h.toWriter.setLock hn false).setLock hm false

/-- A box for the merged node, on the level of the two. -/
theorem addNode (hparent : n.getParent = nl.getParent) (hlock : n.isLocked = false)
    (hlinks : ∀ link ∈ n.links, LinkFits s.tree.nextAddr level (level r.left) link) :
    ∃ level', Rotating level' top parent held r nl nr (s.addNode n).tree ∧
      level' s.tree.nextAddr + 1 = level' parent ∧ (∀ x < s.tree.nextAddr, level' x = level x) := by
  have hfits : NodeFits s.tree.nextAddr level (level r.left) n :=
    ⟨hlinks, by rw [hparent]; exact (h.fits r.left nl h.left_node).parent⟩
  have hg := h.toLevelled.addNode hfits (by rw [hparent]; exact h.left_parent) hlock
  have hl := h.toLevelled.bound r.left nl h.left_node
  have hr := h.toLevelled.bound r.right nr h.right_node
  have hp := hg.agree parent h.parent_lt
  have hw := h.toWriter.grown hg
  rw [← hp] at hw
  refine ⟨_, { hw, h with
    parent_lt := h.parent_lt.trans_le hg.nextAddr_le
    held_eq := hg.held_eq.trans h.held_eq
    left_level := by rw [hg.agree _ hl, hp]; exact h.left_level
    right_level := by rw [hg.agree _ hr, hp]; exact h.right_level
    left_node := (addNode_nodes_of_ne hl.ne).trans h.left_node
    right_node := (addNode_nodes_of_ne hr.ne).trans h.right_node }, ?_, hg.agree⟩
  rw [Function.update_self, hp]
  exact h.left_level
end
end Rotating

/-! ## Rotations and merges of leaves -/

section Leaves

theorem Store.meets_getMax_true {a : Addr} {Q : Option FileId → Store D → Prop} (hQ : ∀ max, Q max s) :
    (getMax a i : Prog (Store D) ε _).meets Q E True s := by
  simp only [getMax, meets_bind, meets_getChildren_true, meets_expect, meets_pure, implies_true, and_true]
  intros
  exact hQ _

variable (h : Rotating level top parent held r
  (.leave leftParent leftFiles ld ll) (.leave rightParent rightFiles rd rl) s.tree)
include h

/-- The files of both leaves change. -/
theorem Rotating.assignLeaves (leftFiles' rightFiles' : Files) :
    Rotating level top parent held r (.leave leftParent leftFiles' true ll) (.leave rightParent rightFiles' true rl)
      ((s.setNode r.left (some (.leave leftParent leftFiles' true ll))).setNode r.right
        (some (.leave rightParent rightFiles' true rl))).tree := by
  have hleft : Rotating level top parent held r (.leave leftParent leftFiles' true ll)
      (.leave rightParent rightFiles rd rl) _ :=
    h.assignLeft rfl rfl (forall_mem_nil _)
  exact hleft.assignRight rfl rfl (forall_mem_nil _)

theorem Rotating.leaveTakeFromRight :
    Settles (Store.leaveTakeFromRight parent r leftParent rightParent leftFiles rightFiles ll rl) s := by
  simp only [Store.leaveTakeFromRight, meets_bind, meets_lift, meets_assert, implies_true, and_true]
  intro p hp _
  refine Store.meets_getMax_true fun max => ?_
  simp only [meets_expect, implies_true, and_true]
  intro leftMax _ _
  refine h.setMax _ _ fun s1 _ h1 => ?_
  simp only [meets_assign]
  intro leftFiles' _
  refine (h1.assignLeaves leftFiles' p.2).release fun s2 _ _ h2 => h2.unlockAll

theorem Rotating.leaveTakeFromLeft :
    Settles (Store.leaveTakeFromLeft parent r leftParent rightParent leftFiles rightFiles ll rl) s := by
  simp only [Store.leaveTakeFromLeft, meets_bind, meets_lift, meets_assert, meets_expect, implies_true, and_true]
  intro p _ _ last _
  refine h.setMax _ _ fun s1 _ h1 => ?_
  simp only [meets_assign]
  intro first _ _ rightFiles' _
  refine (h1.assignLeaves p.2 rightFiles').release fun s2 _ _ h2 => h2.unlockAll
end Leaves

/-! ## Merging upwards -/

variable {a b : Addr} {Q : Unit → Store D → Prop}

/-- The merged node takes the place of the two. -/
theorem Climber.replaceMerged (h : Climber level top parent s.tree) (hlevel : level a + 1 = level parent)
    (ha : a < s.tree.nextAddr) (hleft : r.left ∉ s.tree.held) (hright : r.right ∉ s.tree.held) (i : ℕ)
    (max : Option FileId) (hQ : ∀ s', Climber level top parent s'.tree → Q () s') :
    (Store.replaceMerged parent r i a max : Prog (Store D) ε Unit).meets Q E True s := by
  simp only [Store.replaceMerged, meets_bind, Store.meets_getChildren_true, meets_lift, implies_true, and_true]
  intro p cs d dc l hn cs1 hset removed hremove
  rw [Store.meets_setChildren hn]
  simp only [meets_dropNode]
  have hw : Climber level top parent (s.setNode parent (some (.node p removed.2 d dc l))).tree := by
    refine h.assign hn rfl rfl (forall_mem_map.2 fun e he => ?_)
    have he1 : e ∈ cs1.toList := mem_of_remove (x := removed.1) (w := removed.2) hremove (.inr he)
    rcases mem_of_setIdx hset he1 with rfl | he
    · intro b hb
      obtain rfl := Option.some.inj hb
      exact ⟨ha, hlevel⟩
    · exact h.toLevelled.child hn he
  have hsame : (s.setNode parent (some (.node p removed.2 d dc l))).tree.held = s.tree.held := held_setNode_of_eq hn rfl
  refine hQ _ ?_
  rw [Climber, held_dropNode, held_dropNode, hsame, sdiff_singleton_eq_self hleft,
    sdiff_singleton_eq_self hright, ← hsame]
  exact (hw.dropNode r.left).dropNode r.right

/-- The only child of the root becomes the root, and the old root goes. -/
theorem Levelled.promote (h : Levelled level top s.tree) (hroot : s.tree.root.node = some a)
    (hb : s.tree.nodes b = some n) (hlevel : level b + 1 = top) (hlinks : n'.links = n.links)
    (hparent : n'.getParent = none) {link : MemTreeLink} (hlink : link.node = some b) :
    Levelled level (top - 1) (((s.setNode b (some n')).setRoot link).setNode a none).tree := by
  have hlt := h.bound b n hb
  have hnodes : ∀ x m, (((s.setNode b (some n')).setRoot link).setNode a none).tree.nodes x = some m →
      (x = b ∧ m = n') ∨ (x ≠ b ∧ x ≠ a ∧ s.tree.nodes x = some m) := by
    intro x m hx
    rw [setNode_nodes, setRoot_nodes, setNode_nodes] at hx
    split at hx
    case isTrue => cases hx
    case isFalse hxa =>
      split at hx
      case isTrue hxb => exact .inl ⟨hxb, (Option.some.inj hx).symm⟩
      case isFalse hxb => exact .inr ⟨hxb, hxa, hx⟩
  refine .of_placed (fun x hx => ?_) fun x m hx => ?_
  · obtain rfl : b = x := Option.some.inj (hlink.symm.trans hx)
    exact ⟨hlt, by omega⟩
  · have hnew : (((s.setNode b (some n')).setRoot link).setNode a none).tree.root.node = some b := hlink
    rw [Placed, hnew, Option.some.injEq]
    rcases hnodes x m hx with ⟨rfl, rfl⟩ | ⟨hxb, hxa, hx⟩
    · refine ⟨hlt, ⟨by rw [hlinks]; exact (h.fits x n hb).links, fun q hq => ?_⟩, iff_of_true hparent rfl⟩
      rw [hparent] at hq
      cases hq
    · have horphan := h.orphan x m hx
      rw [hroot, Option.some.injEq] at horphan
      exact ⟨h.bound x m hx, h.fits x m hx,
        iff_of_false (fun hnone => hxa (horphan.1 hnone).symm) fun heq => hxb heq.symm⟩

/-- The root is replaced by its only child. -/
theorem Climber.promoteChild (h : Climber level top a s.tree) (ha : s.tree.nodes a = some n) (hparent : n.getParent = none) :
    Settles (promoteChild a : Prog (Store D) ε Unit) s := by
  have hroot := (h.orphan a n ha).1 hparent
  simp only [Store.promoteChild, meets_bind, Store.meets_getChildren_true, meets_lift,
    meets_assert, implies_true, and_true]
  intro p cs d dc l hn _ removed hremove
  rw [Store.meets_setChildren hn]
  simp only [meets_expect, meets_lockNode, meets_deref, meets_assign,
    meets_unlockNode, meets_getLink_root, meets_setLink_root, implies_true, and_true]
  intro _ b hb m hm _ m1 hm1 m2 hm2 _
  obtain rfl : m.setLock true = m1 := Option.some.inj (setNode_nodes_self.symm.trans hm1)
  obtain rfl : (m.setLock true).setParent none = m2 := Option.some.inj (setNode_nodes_self.symm.trans hm2)
  simp only [setNode_setNode_self, setNode_root, hroot, meets_bind, meets_dropNode,
    meets_unlockRoot, implies_true, and_true]
  intro _
  have hmem : removed.1 ∈ cs.toList := mem_of_remove (x := removed.1) (w := removed.2) hremove (.inl rfl)
  have hlevel := (h.toLevelled.child hn hmem b hb).2
  rw [(h.root a hroot).2] at hlevel
  have hs1 : Levelled level top (s.setNode a (some (.node p removed.2 d dc l))).tree := by
    refine h.toLevelled.assign hn rfl (forall_mem_map.2 fun e he => ?_)
    exact h.toLevelled.child hn (mem_of_remove (x := removed.1) (w := removed.2) hremove (.inr he))
  have hlinks : (((m.setLock true).setParent none).setLock false).links = m.links := by
    simp only [links_setLock, links_setParent]
  have hnone : (((m.setLock true).setParent none).setLock false).getParent = none := by
    simp only [getParent_setLock, getParent_setParent]
  have hpromoted := hs1.promote hroot hm hlevel hlinks hnone hb
  refine ⟨⟨level, top - 1, hpromoted.setRootLock false⟩, rfl, ?_⟩
  -- the lock of the old root is dropped with it
  have hsame : (s.setNode a (some (.node p removed.2 d dc l))).tree.held = {a} := by
    rw [← h.held_eq ha hparent]
    exact held_setNode_of_eq hn rfl
  have hdropped : ((((s.setNode a (some (.node p removed.2 d dc l))).setNode b
      (some (((m.setLock true).setParent none).setLock false))).setRoot removed.1.1).setNode a
      none).tree.held = (({a} : Set Addr) \ {b}) \ {a} := by
    rw [held_dropNode, ← hsame, ← held_unlock (n := ((m.setLock true).setParent none).setLock false) isLocked_setLock]
    rfl
  exact hdropped.trans (sdiff_eq_empty.2 sdiff_subset)

/-! ## Rebalancing -/

section Rebalance
variable {leftChildren rightChildren : Children} {ldc rdc : Bool}
section
variable (h : Rotating level top parent held r
  (.node leftParent leftChildren ld ldc ll) (.node rightParent rightChildren rd rdc rl) s.tree)
include h

/-- Both nodes hold links that lead to the level below them. -/
theorem Rotating.links {c : MemTreeLink × Option FileId} (hc : c ∈ leftChildren.toList ∨ c ∈ rightChildren.toList) :
    LinkFits s.tree.nextAddr level (level r.left) c.1 := by
  rcases hc with hc | hc
  · exact h.toLevelled.child h.left_node hc
  · rw [h.level_eq]
    exact h.toLevelled.child h.right_node hc

/-- The children of both nodes change. -/
theorem Rotating.assignNodes {leftChildren' rightChildren' : Children}
    (hlinks : ∀ c, c ∈ leftChildren'.toList ∨ c ∈ rightChildren'.toList →
      LinkFits s.tree.nextAddr level (level r.left) c.1) :
    Rotating level top parent held r (.node leftParent leftChildren' true ldc ll)
      (.node rightParent rightChildren' true rdc rl)
      ((s.setNode r.left (some (.node leftParent leftChildren' true ldc ll))).setNode r.right
        (some (.node rightParent rightChildren' true rdc rl))).tree := by
  have hleft : Rotating level top parent held r (.node leftParent leftChildren' true ldc ll)
      (.node rightParent rightChildren rd rdc rl) _ :=
    h.assignLeft rfl rfl (forall_mem_map.2 fun c hc => hlinks c (.inl hc))
  refine hleft.assignRight rfl rfl (forall_mem_map.2 fun c hc => ?_)
  rw [← h.level_eq]
  exact hlinks c (.inr hc)
end

/-- The pair is released and the merged node takes its place. -/
theorem Rotating.mergeUp {nl nr : MemTreeNode}
    {E : MemTreeError → Store D → Prop} (h : Rotating level top parent held r nl nr s.tree)
    (hlevel : level a + 1 = level parent) (ha : a < s.tree.nextAddr) (i : ℕ) (max : Option FileId)
    (hQ : ∀ s', Climber level top parent s'.tree → Q () s') :
    (unlockNode r.left).meets (fun _ s1 => (unlockNode r.right).meets
      (fun _ s2 => (replaceMerged parent r i a max).meets Q E True s2) E True s1) E True s := by
  refine h.release fun s' hnext hheld hw => ?_
  exact hw.replaceMerged hlevel (hnext ▸ ha) (hheld ▸ h.left_free) (hheld ▸ h.right_free) i max hQ

variable [BlockDevice D Block]

/-- Both ways to rebalance start by letting the unbalanced node go and locking a pair. -/
theorem Climber.lockNeighbours {unbalanced : Addr} {E : MemTreeError → Store D → Prop}
    {rest : ChildrenForRebalance → MemTreeNode → MemTreeNode → Prog (Store D) MemTreeError Unit}
    (h : Climber level top unbalanced s.tree) (hn : s.tree.nodes unbalanced = some n) (hparent : n.getParent = some parent)
    (hrest : ∀ r nl nr held level' s', Rotating level' top parent held r nl nr s'.tree →
      (rest r nl nr).meets Q E True s') :
    (do
      Store.unlockNode unbalanced
      let r ← childrenForRebalance parent unbalanced
      rest r (← deref r.left) (← deref r.right)).meets Q E True s := by
  rw [meets_bind]
  refine h.unlockNode hn hparent fun hup => ?_
  rw [meets_bind]
  refine meets_mono (hup.toLevelled.childrenForRebalance unbalanced) ?_ (fun _ _ he => he) fun hf => hf
  rintro r s1 ⟨level1, hp⟩
  simp only [meets_bind, meets_deref, implies_true, and_true]
  intro nl hl nr hr
  exact hrest r nl nr _ level1 s1 (hup.rotating (h.toLevelled.parent hn hparent).1 hp hl hr)

/-- **`rebalance_node`** -/
theorem Climber.rebalanceNode : ∀ (fuel : ℕ) {level : Addr → ℤ} {unbalanced : Addr} {s : Store D},
    Climber level top unbalanced s.tree → Settles (rebalanceNode fuel unbalanced) s
  | 0, _, _, _, _ => trivial
  | fuel + 1, level, unbalanced, s, h => by
    rw [Settles, Store.rebalanceNode, meets_bind, Store.meets_deref]
    refine ⟨fun n hn => ?_, fun _ => trivial⟩
    rcases hparent : n.getParent with _ | parent
    · simp only
      split
      case isTrue => exact h.promoteChild hn hparent
      case isFalse => exact h.unlockAll
    · refine h.lockNeighbours hn hparent fun r nl nr held level1 s1 h1 => ?_
      rcases nl with ⟨leftParent, leftChildren, ld, ldc, ll⟩ | _
      · rcases nr with ⟨rightParent, rightChildren, rd, rdc, rl⟩ | _
        · simp only
          rcases r.mode with _ | _ | i
          · simp only [meets_bind, meets_lift, meets_assert, meets_expect, implies_true, and_true]
            rintro ⟨toMove, rightChildren'⟩ hremove _ leftNewMax _
            refine meets_getMax_true fun max leftMax _ _ => ?_
            refine h1.setMax _ _ fun s2 hnext h2 leftChildren' hpush => ?_
            simp only [meets_assign]
            refine (h2.assignNodes fun c hc => h2.links ?_).release fun s3 _ _ h3 => h3.unlockAll
            rcases hc with hc | hc
            · rcases mem_of_push hpush hc with rfl | hc
              · exact .inr (mem_of_remove hremove (.inl rfl))
              · exact .inl hc
            · exact .inr (mem_of_remove hremove (.inr hc))
          · simp only [meets_bind, meets_lift, meets_assert, meets_expect, implies_true, and_true]
            rintro ⟨toMove, leftChildren'⟩ hremove _ _
            refine meets_getMax_true fun max leftMax _ newLast hlast newLeftMax _ => ?_
            intro leftChildren'' hset
            refine h1.setMax _ _ fun s2 hnext h2 rightChildren' hinsert => ?_
            simp only [meets_assign]
            refine (h2.assignNodes ?_).release fun s3 _ _ h3 => h3.unlockAll
            have hold : ∀ c, c = toMove ∨ c ∈ leftChildren'.toList → LinkFits _ _ _ c.1 :=
              fun c hc => h2.links (.inl (mem_of_remove hremove hc))
            intro c hc
            rcases hc with hc | hc
            · rcases mem_of_setIdx hset hc with rfl | hc
              · exact hold newLast (.inr (mem_of_getLast? hlast))
              · exact hold c (.inr hc)
            · rcases mem_of_insert hinsert hc with rfl | hc
              · exact hold toMove (.inl rfl)
              · exact h2.links (.inr hc)
          · simp only [meets_bind]
            refine meets_getMax_true fun max => ?_
            rw [meets_allocNode]
            simp only [meets_assign]
            obtain ⟨level2, h2, hlevel, hagree⟩ := h1.addNode (n := .node leftParent
              ((StaticVec.new.extend leftChildren.toList).extend rightChildren.toList) true true false)
              rfl rfl <| forall_mem_map.2 fun c hc => by
                refine h1.links ?_
                rcases mem_of_extend hc with hc | hc
                · rcases mem_of_extend hc with hc | hc
                  · exact absurd hc not_mem_nil
                  · exact .inl hc
                · exact .inr hc
            have hempty : ∀ c : MemTreeLink × Option FileId,
                c ∈ (StaticVec.new : Children).toList ∨ c ∈ (StaticVec.new : Children).toList →
                LinkFits (s1.addNode (.node leftParent ((StaticVec.new.extend leftChildren.toList).extend
                  rightChildren.toList) true true false)).tree.nextAddr level2 (level2 r.left) c.1 := by
              intro c hc
              exact absurd (or_self_iff.1 hc) not_mem_nil
            exact (h2.assignNodes hempty).mergeUp hlevel (lt_add_one _) i max fun s3 h3 => h3.rebalanceNode fuel
        · trivial
      · trivial

theorem Rotating.leaveMerge (h : Rotating level top parent held r
      (.leave leftParent leftFiles ld ll) (.leave rightParent rightFiles rd rl) s.tree) (i : ℕ) :
    Settles (Store.leaveMerge parent r leftParent rightParent leftFiles rightFiles ll rl i) s := by
  simp only [Store.leaveMerge, meets_bind]
  refine Store.meets_getMax_true fun max => ?_
  rw [Store.meets_allocNode]
  simp only [Store.meets_assign, meets_get]
  obtain ⟨level1, h1, hlevel, -⟩ := h.addNode
    (n := .leave leftParent (leftFiles.extend rightFiles.toList) true false) rfl rfl
    (forall_mem_nil _)
  exact (h1.assignLeaves leftFiles StaticVec.new).mergeUp hlevel (lt_add_one _) i max
    fun s2 h2 => h2.rebalanceNode _

/-- **`rebalance_leave`** -/
theorem Climber.rebalanceLeave {unbalanced : Addr} (h : Climber level top unbalanced s.tree) : Settles (Store.rebalanceLeave unbalanced) s := by
  rw [Settles, Store.rebalanceLeave, meets_bind, Store.meets_deref]
  refine ⟨fun n hn => ?_, fun _ => trivial⟩
  rw [meets_bind, meets_expect]
  refine ⟨fun parent hparent => ?_, fun _ => trivial⟩
  refine h.lockNeighbours hn hparent fun r nl nr held level1 s1 h1 => ?_
  rcases nl with _ | ⟨leftParent, leftFiles, ld, ll⟩
  · trivial
  rcases nr with _ | ⟨rightParent, rightFiles, rd, rl⟩
  · trivial
  simp only
  rcases r.mode with _ | _ | i
  · exact h1.leaveTakeFromRight
  · exact h1.leaveTakeFromLeft
  · exact h1.leaveMerge i

/-- **`delete`**, from the leave on. -/
theorem Walker.deleteFrom (h : Walker true level top a s.tree) (id : FileId) : Settles (Store.deleteFrom a id) s := by
  rw [Settles, Store.deleteFrom, meets_bind, Store.meets_deref]
  refine ⟨fun n ha => ?_, fun _ => trivial⟩
  rcases n with ⟨p, cs, d, dc, l⟩ | ⟨parent, files, d, l⟩
  · trivial
  simp only
  split
  case h_1 =>
    rw [meets_bind]
    exact h.climber.unlockAll
  case h_2 filePos _ =>
    simp only [meets_bind, meets_lift, meets_assign, implies_true, and_true]
    rintro ⟨fileNode, files'⟩ _
    have hw := h.climber.assignLeave ha files'
    split
    case isTrue =>
      rw [meets_bind]
      exact hw.unlockAll
    case isFalse =>
      rw [meets_bind]
      exact hw.rebalanceLeave
end Rebalance
end WasabiOS
