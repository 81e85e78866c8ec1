import WasabiOS.Wfs.MemTree.Levels

/-!
# Wfs/MemTree/LockWalk — the locks of a walk to a leave

A `Walker` stands on a locked node: a reader holds that lock alone, a writer holds one on every level
above it too, and the lock of the root link.  `find_leave` either reads every block it needs and ends
with a walker on a leave, or a read fails and it returns with what it holds (`findLeave_meets`).
`walkFails` says which, from the tree and the device before the call.
-/

open Machinery Prog
namespace WasabiOS
open Store MemTreeNode Option Set
variable {id : FileId} {a b : Addr} {n : MemTreeNode} {level : Addr → ℤ} {top : ℤ} {l : Bool} {i : ℕ}
variable {D : Type} {s : Store D}

/-! ## Reads on the way -/

section Reads
variable [BlockDevice D Block]
  {children : Children} {ptr : DevicePointer .treeNode} {parent : Option Addr} {tn : TreeNode}

/-- The child a walk goes to. -/
def route (id : FileId) (children : Children) : Option MemTreeLink :=
  (routeIndex id children).bind fun i => children.toList[i]?.map Prod.fst

/-- Where a walk goes from a node. -/
def MemTreeNode.next (id : FileId) : MemTreeNode → Option MemTreeLink
  | node _ children _ _ _ => route id children
  | leave .. => none

/-- Where a walk goes from a node it has just loaded. -/
def TreeNode.next (id : FileId) : TreeNode → Option MemTreeLink
  | node children => route id (unloaded children)
  | leave _ => none

/-- Whether a device read fails on the way to the leave of `id`, from a link down. -/
def readFails (id : FileId) (nodes : Addr → Option MemTreeNode) : (fuel : ℕ) → MemTreeLink → D → Bool
  | 0, _, _ => false
  | fuel + 1, link, d =>
    match link.node, link.devicePtr with
    | some a, _ => ((nodes a).bind (·.next id)).any fun c => readFails id nodes fuel c d
    | none, none => false
    | none, some ptr =>
      match readPointer ptr d with
      | .ok tn d' => (tn.next id).any fun c => readFails id nodes fuel c d'
      | .err _ _ => true
      | .fault _ => false

/-- Whether a device read fails on the way to the leave of `id`, below a node. -/
def belowFails (id : FileId) (nodes : Addr → Option MemTreeNode) (fuel : ℕ) (n : Option MemTreeNode) (d : D) : Bool :=
  (n.bind (·.next id)).any fun c => readFails id nodes fuel c d

/-- The levels `find_leave` visits below the root. -/
def walkFuel (t : MemTree) : ℕ := (if t.root.node.isSome then t.nextAddr else t.nextAddr + 1) + LBA.addressCount + 1

/-- Whether a device read fails on the way to the leave of `id`. -/
def walkFails (id : FileId) (s : Store D) : Bool := readFails id s.tree.nodes (walkFuel s.tree + 1) s.tree.root s.device

variable {nodes nodes' : Addr → Option MemTreeNode} {fuel : ℕ} {link : MemTreeLink} {d : D} {P : Addr → Prop}

theorem mem_of_route (h : route id children = some link) : ∃ c ∈ children.toList, c.1 = link := by
  obtain ⟨i, -, hi⟩ := bind_eq_some_iff.1 h
  obtain ⟨c, hc, hlink⟩ := map_eq_some_iff.1 hi
  exact ⟨c, List.mem_of_getElem? hc, hlink⟩

theorem getElem?_of_routeIndex (h : routeIndex id children = some i) : ∃ c, children.toList[i]? = some c := by
  obtain ⟨hlt, -⟩ := List.findIdx?_eq_some_iff_getElem.1 h
  exact ⟨_, List.getElem?_eq_getElem hlt⟩

theorem MemTreeNode.mem_links_of_next (h : n.next id = some link) : link ∈ n.links := by
  cases n with
  | node p children dirty dc l =>
    obtain ⟨c, hc, rfl⟩ := mem_of_route h
    exact List.mem_map_of_mem hc
  | leave p files dirty l => cases h

theorem TreeNode.node_next (h : tn.next id = some link) : link.node = none := by
  cases tn with
  | node children =>
    obtain ⟨c, hc, rfl⟩ := mem_of_route h
    exact node_unloaded hc
  | leave files => cases h

theorem LoadedAs.next (h : LoadedAs parent tn n) : n.next id = tn.next id := by
  cases tn with
  | node children => cases h; rfl
  | leave files => obtain ⟨fs, rfl⟩ := h; rfl

theorem MemTreeNode.next_setLock : (n.setLock l).next id = n.next id := by cases n <;> rfl

theorem readFails_some (h : link.node = some a) :
    readFails id nodes (fuel + 1) link d = belowFails id nodes fuel (nodes a) d := by
  simp only [readFails, h, belowFails]

theorem readFails_none (h : link.node = none)
    (hptr : link.devicePtr = some ptr) : readFails id nodes (fuel + 1) link d =
      match readPointer ptr d with
      | .ok tn d' => (tn.next id).any fun c => readFails id nodes fuel c d'
      | .err _ _ => true
      | .fault _ => false := by
  simp only [readFails, h, hptr]

theorem readFails_invalid (h : link.node = none) (hptr : link.devicePtr = none) :
    readFails id nodes (fuel + 1) link d = false := by
  simp only [readFails, h, hptr]

theorem any_eq_any {α : Type} {o : Option α} {f g : α → Bool} (h : ∀ x ∈ o, f x = g x) : o.any f = o.any g := by
  cases o with
  | none => rfl
  | some x => exact h x rfl

theorem belowFails_zero (o : Option MemTreeNode) : belowFails id nodes 0 o d = false := by
  rw [belowFails, any_eq_any fun _ _ => rfl]
  cases o.bind (·.next id) <;> rfl

/-- The way below some nodes does not depend on other nodes. -/
theorem readFails_congr (hclosed : ∀ x n, P x → nodes x = some n → ∀ link ∈ n.links,
      ∀ b, link.node = some b → P b) (heq : ∀ x, P x → nodes' x = nodes x) :
    ∀ (fuel : ℕ) {link : MemTreeLink} (d : D), (∀ b, link.node = some b → P b) →
      readFails id nodes' fuel link d = readFails id nodes fuel link d
  | 0, _, _, _ => rfl
  | fuel + 1, link, d, hlink => by
    rcases hnode : link.node with _ | a
    · rcases hptr : link.devicePtr with _ | ptr
      · rw [readFails_invalid hnode hptr, readFails_invalid hnode hptr]
      · rw [readFails_none hnode hptr, readFails_none hnode hptr]
        rcases readPointer ptr d with ⟨tn, d'⟩ | ⟨e, d'⟩ | f
        · refine any_eq_any fun c hc => readFails_congr hclosed heq fuel d' fun b hb => ?_
          rw [TreeNode.node_next hc] at hb
          cases hb
        · rfl
        · rfl
    · rw [readFails_some hnode, readFails_some hnode, heq a (hlink a hnode)]
      refine any_eq_any fun c hc => readFails_congr hclosed heq fuel d ?_
      obtain ⟨n, hn, hc⟩ := bind_eq_some_iff.1 hc
      exact hclosed a n (hlink a hnode) hn c (mem_links_of_next hc)

/-- The way below a node that was just loaded. -/
theorem belowFails_loaded
    {dev : D} (h : LoadedAs parent tn n) (hlink : link.node = none) (hptr : link.devicePtr = some ptr)
    (hread : readPointer ptr d = .ok tn dev) :
    belowFails id nodes' fuel (some n) dev = readFails id nodes (fuel + 1) link d := by
  have hfalse : ∀ c ∈ tn.next id, readFails id nodes' fuel c dev = readFails id nodes fuel c dev := by
    intro c hc
    have hclosed : ∀ x n, False → nodes x = some n → ∀ link ∈ n.links, ∀ b, link.node = some b →
        False := fun _ _ h => h.elim
    refine readFails_congr hclosed (fun _ h => h.elim) fuel dev fun b hb => ?_
    rw [TreeNode.node_next hc] at hb
    cases hb
  rw [readFails_none hlink hptr, hread, belowFails, bind_some, h.next]
  exact any_eq_any hfalse
end Reads

section Below

/-- Links lead down. -/
theorem Levelled.closed_below (h : Levelled level top s.tree) (ℓ : ℤ) :
    ∀ x n, level x < ℓ → s.tree.nodes x = some n → ∀ link ∈ n.links, ∀ c, link.node = some c → level c < ℓ := by
  intro x n hx hn link hlink c hc
  have := ((h.fits x n hn).links link hlink c hc).2
  omega

variable [BlockDevice D Block]

/-- What is below a node does not notice its lock, nor what is above it. -/
theorem Levelled.belowFails_lock {nodes' : Addr → Option MemTreeNode} {locked : Bool}
    (h : Levelled level top s.tree) (hn : s.tree.nodes b = some n)
    (hb : nodes' b = some (n.setLock locked))
    (heq : ∀ x, level x < level b → nodes' x = s.tree.nodes x) (id : FileId) (fuel : ℕ) (d : D) :
    belowFails id nodes' fuel (nodes' b) d = belowFails id s.tree.nodes fuel (s.tree.nodes b) d := by
  rw [hb, hn, belowFails, bind_some, next_setLock]
  refine any_eq_any fun link hlink => readFails_congr (h.closed_below (level b)) heq fuel d fun c hc => ?_
  have := ((h.fits b n hn).links link (mem_links_of_next hlink) c hc).2
  omega
end Below

/-! ## Walkers -/

/-- A walk stands on the node at `a`: a reader holds its lock alone, a writer a lock on each level above
it and the lock of the root link. -/
structure Walker (isMut : Bool) (level : Addr → ℤ) (top : ℤ) (a : Addr) (t : MemTree) : Prop extends
    Levelled level top t where
  rootLock : t.rootLock = isMut
  mem : a ∈ t.held
  ladder : Ladder level top (level a) t.held
  root_held : isMut = true → ∀ r, t.root.node = some r → r ∈ t.held
  alone : isMut = false → t.held = {a}

namespace Walker
variable {isMut : Bool} {level' : Addr → ℤ} {s' : Store D} {n' : MemTreeNode}

theorem not_unlocked {t : MemTree} (h : Walker isMut level top a t) : ¬ t.Unlocked := by
  intro hu
  have hmem := h.mem
  rw [hu.held] at hmem
  exact hmem

section
variable (h : Walker isMut level top a s.tree)
include h

theorem grown (hg : Grown level level' top s s') : Walker isMut level' top a s'.tree := by
  have hlevel : Set.EqOn level' level s.tree.held := fun x hx => hg.agree x (h.held_lt hx)
  refine { hg.toLevelled with rootLock := hg.rootLock_eq.trans h.rootLock, mem := ?_, ladder := ?_,
                              root_held := ?_, alone := ?_ }
  · rw [hg.held_eq]; exact h.mem
  · rw [hg.held_eq, hlevel h.mem]; exact h.ladder.congr hlevel
  · rw [hg.held_eq, hg.root_eq]; exact h.root_held
  · rw [hg.held_eq]; exact h.alone

/-- A node is overwritten by one with the same links, parent and lock. -/
theorem assign (hb : s.tree.nodes b = some n) (hparent : n'.getParent = n.getParent) (hlinks : n'.links = n.links)
    (hlock : n'.isLocked = n.isLocked) : Walker isMut level top a (s.setNode b (some n')).tree := by
  have hheld := MemTree.held_setNode_of_eq hb hlock
  exact { h.toLevelled.assign_same hb hparent hlinks with
    rootLock := h.rootLock
    mem := by rw [hheld]; exact h.mem
    ladder := by rw [hheld]; exact h.ladder
    root_held := by rw [hheld]; exact h.root_held
    alone := by rw [hheld]; exact h.alone }

/-- The child's lock is free, since all that is held is above it. -/
theorem child_free (hb : level b + 1 = level a) (hn : s.tree.nodes b = some n) : n.isLocked = false := by
  have hnot : b ∉ s.tree.held := h.ladder.notMem (by omega)
  rw [MemTree.mem_held_of_some hn] at hnot
  exact Bool.eq_false_iff.2 hnot
end

/-- A writer takes the lock of the child. -/
theorem lock_writer (h : Walker true level top a s.tree) (hb : level b + 1 = level a) (hn : s.tree.nodes b = some n) :
    Walker true level top b (s.setNode b (some (n.setLock true))).tree := by
  have hheld : (s.setNode b (some (n.setLock true))).tree.held = insert b s.tree.held :=
    MemTree.held_lock isLocked_setLock
  have htop := (h.ladder.range a h.mem).2
  exact { h.toLevelled.setLock hn true with
    rootLock := h.rootLock
    mem := by rw [hheld]; exact mem_insert b _
    ladder := by rw [hheld]; exact h.ladder.insert hb (by omega)
    root_held := fun _ r hr => by rw [hheld]; exact mem_insert_of_mem b (h.root_held rfl r hr)
    alone := fun h => by cases h }

/-- A reader takes the lock of the child and lets its own go. -/
theorem lock_reader {m : MemTreeNode} (h : Walker false level top a s.tree)
    (hb : level b + 1 = level a) (hn : s.tree.nodes b = some n)
    (hm : (s.setNode b (some (n.setLock true))).tree.nodes a = some m) :
    Walker false level top b ((s.setNode b (some (n.setLock true))).setNode a (some (m.setLock false))).tree := by
  have hne : b ≠ a := ne_of_apply_ne level (by omega)
  have hheld : ((s.setNode b (some (n.setLock true))).setNode a (some (m.setLock false))).tree.held = {b} := by
    rw [MemTree.held_unlock isLocked_setLock, MemTree.held_lock isLocked_setLock, h.alone rfl, pair_sdiff_right hne]
  have htop := (h.ladder.range a h.mem).2
  exact { (h.toLevelled.setLock hn true).setLock hm false with
    rootLock := h.rootLock
    mem := by rw [hheld]; exact mem_singleton b
    ladder := by rw [hheld]; exact .singleton (by omega)
    root_held := fun h => by cases h
    alone := fun _ => hheld }

variable [BlockDevice D Block]

/-- What resolving a child comes to: it is in memory, one level below, and the rest of the way is as it
was; or its block cannot be read, and then the tree is as it was. -/
theorem resolve_child {p : Option Addr} {cs : Children} {dirty dc : Bool}
    {c : MemTreeLink × Option FileId} (h : Walker isMut level top a s.tree)
    (ha : s.tree.nodes a = some (.node p cs dirty dc l)) (hc : cs.toList[i]? = some c) (fuel : ℕ) :
    (resolve (.child a i) (some a) : Prog (Store D) FsError Addr).meets
      (fun b s' => ∃ level', Walker isMut level' top a s'.tree ∧ level' b + 1 = level' a ∧
        belowFails id s'.tree.nodes fuel (s'.tree.nodes b) s'.device =
          readFails id s.tree.nodes (fuel + 1) c.1 s.device)
      (fun _ s' => s'.tree = s.tree ∧ readFails id s.tree.nodes (fuel + 1) c.1 s.device = true)
      (readFails id s.tree.nodes (fuel + 1) c.1 s.device = false) s := by
  refine h.toLevelled.meets_resolve_child ha hc ?_ ?_ ?_ ?_ ?_
  · intro b hb
    have hlevel := h.toLevelled.child ha (List.mem_of_getElem? hc) b hb
    exact ⟨level, h, hlevel.2, (readFails_some hb).symm⟩
  · intro ptr tn dev b n s' level' hnone hptr hread hg hdev hlevel hn hloaded
    refine ⟨level', h.grown hg, hlevel, ?_⟩
    rw [hn, hdev]
    exact belowFails_loaded hloaded hnone hptr hread
  · intro ptr e dev hnone hptr hread
    exact ⟨rfl, by rw [readFails_none hnone hptr, hread]⟩
  · intro hnone hptr
    exact readFails_invalid hnone hptr
  · intro ptr f hnone hptr hread
    rw [readFails_none hnone hptr, hread]

/-- **One step down** -/
theorem lock_child {β : Type} {Q : β → Store D → Prop} {E : FsError → Store D → Prop} {F : Prop}
    {rest : Prog (Store D) FsError β} (h : Walker isMut level top a s.tree)
    (hb : level b + 1 = level a) (id : FileId) (fuel : ℕ)
    (hrest : ∀ s', Walker isMut level top b s'.tree → s'.device = s.device →
      belowFails id s'.tree.nodes fuel (s'.tree.nodes b) s.device =
        belowFails id s.tree.nodes fuel (s.tree.nodes b) s.device → rest.meets Q E F s')
    (hF : s.tree.nodes b = none → F) :
    (lockNode b).meets (fun _ s' => (if isMut = true then rest
      else unlockNode a >>= fun _ => rest).meets Q E F s') E F s := by
  rw [meets_lockNode]
  refine ⟨fun n hn => ⟨fun _ => ?_, fun hlocked => ?_⟩, hF⟩
  · have hne : a ≠ b := ne_of_apply_ne level (by omega)
    rcases isMut with _ | _
    · obtain ⟨m, hm, hlocked⟩ := h.mem
      have hm' : (s.setNode b (some (n.setLock true))).tree.nodes a = some m := by rw [setNode_nodes_of_ne hne, hm]
      rw [if_neg Bool.false_ne_true, meets_bind, meets_unlockNode, hm']
      refine ⟨fun m' hsome => ?_, fun hnone => by cases hnone⟩
      obtain rfl : m = m' := Option.some.inj hsome
      have hb' : ((s.setNode b (some (n.setLock true))).setNode a (some (m.setLock false))).tree.nodes b =
          some (n.setLock true) := by
        rw [setNode_nodes_of_ne hne.symm, setNode_nodes_self]
      refine ⟨fun _ => hrest _ (h.lock_reader hb hn hm') rfl (h.belowFails_lock hn hb' ?_ id fuel _), fun hfree => ?_⟩
      · intro x hx
        have hxa : x ≠ a := ne_of_apply_ne level (by omega)
        have hxb : x ≠ b := ne_of_apply_ne level (by omega)
        rw [setNode_nodes_of_ne hxa, setNode_nodes_of_ne hxb]
      · rw [hlocked] at hfree
        cases hfree
    · rw [if_pos rfl]
      refine hrest _ (h.lock_writer hb hn) rfl (h.belowFails_lock hn setNode_nodes_self ?_ id fuel _)
      intro x hx
      have hxb : x ≠ b := ne_of_apply_ne level (by omega)
      rw [setNode_nodes_of_ne hxb]
  · rw [h.child_free hb hn] at hlocked
    cases hlocked

/-- **The loop of `find_leave`** -/
theorem descend : ∀ (fuel : ℕ) {level : Addr → ℤ} {a : Addr} {s : Store D}, Walker isMut level top a s.tree →
    (descend isMut id fuel a).meets (fun b s' => belowFails id s.tree.nodes fuel (s.tree.nodes a) s.device = false ∧
        ∃ level', Walker isMut level' top b s'.tree)
      (fun _ s' => belowFails id s.tree.nodes fuel (s.tree.nodes a) s.device = true ∧ ¬ s'.tree.Unlocked)
      (belowFails id s.tree.nodes fuel (s.tree.nodes a) s.device = false) s
  | 0, _, _, _, _ => belowFails_zero _
  | fuel + 1, level, a, s, h => by
    rw [Store.descend, meets_bind, Store.meets_deref]
    refine ⟨fun n ha => ?_, fun ha => by rw [ha]; rfl⟩
    rw [ha]
    rcases n with ⟨p, cs, dirty, dc, l⟩ | ⟨p, files, dirty, l⟩
    · simp only [meets_bind, meets_assign, meets_expect]
      have h1 : Walker isMut level top a
          (s.setNode a (some (.node p cs dirty (dc || isMut) l))).tree := h.assign ha rfl rfl rfl
      refine ⟨fun i hi => ?_, fun hnone => ?_⟩
      · obtain ⟨c, hc⟩ := getElem?_of_routeIndex hi
        have hway : belowFails id s.tree.nodes (fuel + 1) (some (.node p cs dirty dc l)) s.device =
            readFails id (s.setNode a (some (.node p cs dirty (dc || isMut) l))).tree.nodes (fuel + 1)
              c.1 s.device := by
          have hroute : route id cs = some c.1 := by rw [route, hi, Option.bind_some, hc]; rfl
          rw [belowFails, Option.bind_some, next, hroute, Option.any_some]
          refine (readFails_congr (h.closed_below (level a)) (fun x hx => ?_) _ _ fun b hb => ?_).symm
          · exact setNode_nodes_of_ne (ne_of_apply_ne level (by omega))
          · have := (h.toLevelled.child ha (List.mem_of_getElem? hc) b hb).2
            omega
        rw [hway]
        refine meets_mono (h1.resolve_child setNode_nodes_self hc fuel) ?_ ?_ fun hF => hF
        · rintro b s2 ⟨level2, h2, hb, hbelow⟩
          rw [setNode_device] at hbelow
          rw [← hbelow]
          refine h2.lock_child hb id fuel (fun s3 h3 hdev hsame => ?_) fun hnone => by rw [hnone]; rfl
          rw [← hsame, ← hdev]
          exact descend fuel h3
        · rintro e s2 ⟨htree, hfails⟩
          exact ⟨hfails, htree ▸ h1.not_unlocked⟩
      · rw [belowFails, Option.bind_some, next, route, hnone]
        rfl
    · exact ⟨rfl, level, h⟩
end Walker

/-! ## From the root -/

section Root

/-- A walk starts on the root. -/
theorem Levelled.startWalk (h : Levelled level top s.tree)
    (hroot : s.tree.root.node = some a) (hempty : s.tree.held = ∅) (hn : s.tree.nodes a = some n)
    (isMut : Bool) :
    Walker isMut level top a ((s.setNode a (some (n.setLock true))).setRootLock isMut).tree := by
  have hheld : ((s.setNode a (some (n.setLock true))).setRootLock isMut).tree.held = {a} := by
    have := MemTree.held_lock (s := s) (a := a) (n := n.setLock true) isLocked_setLock
    rw [hempty, LawfulSingleton.insert_empty_eq] at this
    exact this
  exact { (h.setLock hn true).setRootLock isMut with
    rootLock := rfl
    mem := by rw [hheld]; exact mem_singleton a
    ladder := by rw [hheld]; exact .singleton (h.root a hroot).2.le
    root_held := fun _ r hr => by
      rw [hheld]
      exact mem_singleton_iff.2 (Option.some.inj (hr.symm.trans hroot))
    alone := fun _ => hheld }

variable [BlockDevice D Block]

/-- What resolving the root comes to. -/
theorem Levelled.resolve_root (h : Levelled level top s.tree) : (resolve .root none : Prog (Store D) FsError Addr).meets
      (fun a s' => ∃ level', Levelled level' top s'.tree ∧ s'.tree.root.node = some a ∧
        s'.tree.held = s.tree.held ∧ s'.tree.rootLock = s.tree.rootLock ∧
        s'.tree.nextAddr + LBA.addressCount + 1 = walkFuel s.tree ∧
        belowFails id s'.tree.nodes (walkFuel s.tree) (s'.tree.nodes a) s'.device = walkFails id s)
      (fun _ s' => s'.tree = s.tree ∧ walkFails id s = true) (walkFails id s = false) s := by
  rw [resolve, meets_bind, meets_getLink_root]
  rcases hnode : s.tree.root.node with _ | a
  · simp only [meets_bind, meets_expect, meets_readNode]
    refine ⟨fun ptr hptr => ⟨fun tn dev hread => ?_, fun e dev hread => ?_, fun f hread => ?_⟩,
      fun hptr => readFails_invalid hnode hptr⟩
    · refine meets_newFrom fun n cells nextCell hn => ?_
      rw [meets_allocNode, meets_setLink_root, meets_pure]
      set s1 : Store D := { s with
        tree := { s.tree with cells := cells, nextCell := nextCell }, device := dev } with hs1
      have h1 : Levelled level top s1.tree := h.congr rfl rfl rfl
      refine ⟨_, h1.addRoot hnode hn.getParent (fun link => hn.node_none) _ rfl, rfl,
        MemTree.held_addNode h1.fresh hn.isLocked, rfl, ?_, ?_⟩
      · rw [walkFuel, hnode, isSome_none, if_neg Bool.false_ne_true]
        rfl
      · rw [setRoot_nodes, addNode_nodes_self]
        exact belowFails_loaded hn hnode hptr hread
    · exact ⟨trivial, by rw [walkFails, readFails_none hnode hptr, hread]⟩
    · rw [walkFails, readFails_none hnode hptr, hread]
  · refine ⟨level, h, hnode, rfl, rfl, ?_, (readFails_some hnode).symm⟩
    rw [walkFuel, hnode, isSome_some, if_pos rfl]

/-- **`find_leave`** ends on a locked leave, or a read on its way fails and it returns with a lock
held. -/
theorem findLeave_meets (h : Levelled level top s.tree) (hu : s.tree.Unlocked) (isMut : Bool) :
    (findLeave isMut id : Prog (Store D) FsError Addr).meets
      (fun a s' => walkFails id s = false ∧ ∃ level', Walker isMut level' top a s'.tree)
      (fun _ s' => walkFails id s = true ∧ ¬ s'.tree.Unlocked) (walkFails id s = false) s := by
  rw [findLeave, meets_bind, meets_lockRoot]
  refine ⟨fun _ => ?_, fun hlocked => by rw [hu.rootLock] at hlocked; cases hlocked⟩
  simp only [meets_bind]
  refine meets_mono (h.setRootLock true).resolve_root ?_ ?_ fun hF => hF
  · rintro a s1 ⟨level1, h1, hroot, hheld, hlock, hfuel, hbelow⟩
    have hempty : s1.tree.held = ∅ := hheld.trans hu.held
    have hway : belowFails id s1.tree.nodes (s1.tree.nextAddr + LBA.addressCount + 1)
        (s1.tree.nodes a) s1.device = walkFails id s := by
      rw [hfuel]
      exact hbelow
    generalize hfuel1 : s1.tree.nextAddr + LBA.addressCount + 1 = fuel at hway
    rw [← hway, meets_lockNode]
    refine ⟨fun n hn => ⟨fun _ => ?_, fun hlocked => ?_⟩, fun hnone => by rw [hnone]; rfl⟩
    · have hself : (s1.setNode a (some (n.setLock true))).tree.nodes a = some (n.setLock true) := setNode_nodes_self
      rw [← h1.belowFails_lock hn hself (fun x hx => setNode_nodes_of_ne
        (ne_of_apply_ne level1 (by omega))) id _ s1.device]
      have h2 := h1.startWalk hroot hempty hn isMut
      rcases isMut with _ | _
      · rw [if_neg Bool.false_ne_true, meets_bind, meets_unlockRoot]
        refine ⟨fun _ => ?_, fun hfree => ?_⟩
        · rw [meets_bind, meets_get, setRootLock_nextAddr, setNode_nextAddr, hfuel1]
          exact h2.descend fuel
        · rw [setNode_rootLock, hlock] at hfree
          cases hfree
      · have hroot2 : (s1.setNode a (some (n.setLock true))).setRootLock true =
            s1.setNode a (some (n.setLock true)) := by
          have hlock : s1.tree.rootLock = true := hlock
          rw [setRootLock, setNode, ← hlock]
        rw [hroot2] at h2
        rw [if_pos rfl, meets_bind, meets_get, setNode_nextAddr, hfuel1]
        exact h2.descend fuel
    · have hmem := (MemTree.mem_held_of_some hn).2 hlocked
      rw [hempty] at hmem
      exact hmem.elim
  · rintro e s1 ⟨htree, hfails⟩
    refine ⟨hfails, fun hu' => ?_⟩
    have hlock := hu'.rootLock
    rw [htree] at hlock
    cases hlock
end Root
end WasabiOS
