import WasabiOS.Wfs.MemTree.Loading

/-!
# Wfs/MemTree/Walk — locks, and the way to the leave of an id

A writer comes down with every lock on its path and releases them upwards; a reader holds two at a
time.  In a tree of two levels the walk ends in the child the separators name.
-/

open Machinery Prog Machinery.Keyed
namespace WasabiOS
open Store Bool
variable {α ε : Type} {V : FileView α} {s0 s : Store (Disk Block)} {r a : Addr}
  {ptr : Option (DevicePointer .treeNode)} {rl d dc : Bool} {c : Child α} {files : List α}
  {cs pre post : List (Child α)} {Q : Unit → Store (Disk Block) → Prop} {E : ε → Store (Disk Block) → Prop}
  {id : FileId}

/-- The child with its lock in the given state. -/
def Child.withLock {α : Type} (c : Child α) (locked : Bool) : Child α := { c with locked := locked }

theorem Child.withLock_eq {b : Bool} (h : c.locked = b) : c.withLock b = c := by
  subst h
  rfl

variable {l : Bool}
namespace NodeRoot
section
variable (H : NodeRoot V s0 s ptr r rl l d dc (pre ++ c :: post)) (ha : c.link.node = some a)
include H ha

theorem setChildLock (locked : Bool) :
    ∃ n, s.tree.nodes a = some n ∧ n.isLocked = c.locked ∧
      NodeRoot V s0 (s.setNode a (some (n.setLock locked))) ptr r rl l d dc (pre ++ c.withLock locked :: post) := by
  obtain ⟨fs, hfs, hfiles, hheld⟩ := H.child.leave ha
  have hmark := H.marked c (mem_focus.2 (.inl rfl))
  exact ⟨_, hfs, rfl, H.setChild (c.withLock locked) ha rfl rfl hfiles hheld hmark fun h => ⟨h, rfl⟩⟩

theorem lockChild (hl : c.locked = false)
    (hQ : ∀ s', NodeRoot V s0 s' ptr r rl l d dc (pre ++ c.withLock true :: post) → Q () s') :
    (lockNode a : Prog (Store (Disk Block)) ε Unit).wp Q E s := by
  obtain ⟨n, hn, hlock, H'⟩ := H.setChildLock ha true
  exact wp_lockNode.2 ⟨n, hn, hlock.trans hl, hQ _ H'⟩

theorem unlockChild (hl : c.locked = true)
    (hQ : ∀ s', NodeRoot V s0 s' ptr r rl l d dc (pre ++ c.withLock false :: post) → Q () s') :
    (unlockNode a : Prog (Store (Disk Block)) ε Unit).wp Q E s := by
  obtain ⟨n, hn, hlock, H'⟩ := H.setChildLock ha false
  exact wp_unlockNode.2 ⟨n, hn, hlock.trans hl, hQ _ H'⟩
end

theorem setSelfLock (H : NodeRoot V s0 s ptr r rl l d dc cs) (locked : Bool) :
    ∃ n, s.tree.nodes r = some n ∧ n.isLocked = l ∧ n.getParent = none ∧
      NodeRoot V s0 (s.setNode r (some (n.setLock locked))) ptr r rl locked d dc cs := by
  obtain ⟨children, hr, hchildren⟩ := H.node
  exact ⟨_, hr, rfl, rfl, H.setSelf hchildren H.children H.distinct H.marked H.clean⟩

theorem lockSelf (H : NodeRoot V s0 s ptr r rl false d dc cs)
    (hQ : ∀ s', NodeRoot V s0 s' ptr r rl true d dc cs → Q () s') :
    (lockNode r : Prog (Store (Disk Block)) ε Unit).wp Q E s := by
  obtain ⟨n, hn, hlock, -, H'⟩ := H.setSelfLock true
  exact wp_lockNode.2 ⟨n, hn, hlock, hQ _ H'⟩

theorem unlockSelf (H : NodeRoot V s0 s ptr r rl true d dc cs)
    (hQ : ∀ s', NodeRoot V s0 s' ptr r rl false d dc cs → Q () s') :
    (unlockNode r : Prog (Store (Disk Block)) ε Unit).wp Q E s := by
  obtain ⟨n, hn, hlock, -, H'⟩ := H.setSelfLock false
  exact wp_unlockNode.2 ⟨n, hn, hlock, hQ _ H'⟩
end NodeRoot

namespace LeafRoot

theorem setSelfLock (H : LeafRoot V s0 s ptr a rl l d files) (locked : Bool) :
    ∃ n, s.tree.nodes a = some n ∧ n.isLocked = l ∧ n.getParent = none ∧
      LeafRoot V s0 (s.setNode a (some (n.setLock locked))) ptr a rl locked d files := by
  obtain ⟨fs, hfs, hfiles, hheld⟩ := H.leave
  exact ⟨_, hfs, rfl, rfl, H.setSelf hfiles hheld fun h => ⟨h, rfl⟩⟩

theorem lockSelf (H : LeafRoot V s0 s ptr a rl false d files)
    (hQ : ∀ s', LeafRoot V s0 s' ptr a rl true d files → Q () s') :
    (lockNode a : Prog (Store (Disk Block)) ε Unit).wp Q E s := by
  obtain ⟨n, hn, hlock, -, H'⟩ := H.setSelfLock true
  exact wp_lockNode.2 ⟨n, hn, hlock, hQ _ H'⟩

theorem unlockSelf (H : LeafRoot V s0 s ptr a rl true d files)
    (hQ : ∀ s', LeafRoot V s0 s' ptr a rl false d files → Q () s') :
    (unlockNode a : Prog (Store (Disk Block)) ε Unit).wp Q E s := by
  obtain ⟨n, hn, hlock, -, H'⟩ := H.setSelfLock false
  exact wp_unlockNode.2 ⟨n, hn, hlock, hQ _ H'⟩
end LeafRoot

/-! ## Unlocking upwards -/

theorem NodeRoot.unlockUpwards_self (H : NodeRoot V s0 s ptr r true true d dc cs) (fuel : ℕ)
    (hQ : ∀ s', NodeRoot V s0 s' ptr r false false d dc cs → Q () s') :
    (unlockUpwards (fuel + 1) r : Prog (Store (Disk Block)) ε Unit).wp Q E s := by
  obtain ⟨n, hn, hlock, hparent, H'⟩ := H.setSelfLock false
  simp only [unlockUpwards, wp_bind, wp_deref, wp_unlockNode]
  refine ⟨n, hn, n, hn, hlock, ?_⟩
  simp only [hparent, wp_unlockRoot]
  exact ⟨H'.rootLock, hQ _ (H'.setRootLock false)⟩

theorem NodeRoot.unlockAll_self (H : NodeRoot V s0 s ptr r true true d dc cs)
    (hQ : ∀ s', NodeRoot V s0 s' ptr r false false d dc cs → Q () s') :
    (unlockAll r : Prog (Store (Disk Block)) ε Unit).wp Q E s := by
  simp only [unlockAll, wp_bind, wp_get]
  exact H.unlockUpwards_self _ hQ

theorem NodeRoot.unlockAll_child (H : NodeRoot V s0 s ptr r true true d dc (pre ++ c :: post))
    (ha : c.link.node = some a) (hl : c.locked = true)
    (hQ : ∀ s', NodeRoot V s0 s' ptr r false false d dc (pre ++ c.withLock false :: post) → Q () s') :
    (unlockAll a : Prog (Store (Disk Block)) ε Unit).wp Q E s := by
  obtain ⟨fuel, hfuel⟩ := Nat.exists_eq_add_of_lt H.root_lt_next
  simp only [unlockAll, wp_bind, wp_get, hfuel, unlockUpwards, wp_deref]
  obtain ⟨fs, hfs, -⟩ := H.child.leave ha
  refine ⟨_, hfs, H.unlockChild ha hl fun s' H' => ?_⟩
  exact H'.unlockUpwards_self _ hQ

theorem LeafRoot.unlockAll (H : LeafRoot V s0 s ptr a true true d files)
    (hQ : ∀ s', LeafRoot V s0 s' ptr a false false d files → Q () s') :
    (unlockAll a : Prog (Store (Disk Block)) ε Unit).wp Q E s := by
  obtain ⟨n, hn, hlock, hparent, H'⟩ := H.setSelfLock false
  simp only [Store.unlockAll, wp_bind, wp_get, Store.unlockUpwards, Store.wp_deref, Store.wp_unlockNode]
  refine ⟨n, hn, n, hn, hlock, ?_⟩
  simp only [hparent, Store.wp_unlockRoot]
  exact ⟨H'.rootLock, hQ _ (H'.setRootLock false)⟩

/-! ## Finding the leave -/

/-- `c` is the child the separators name for `id`. -/
structure Child.Route {α : Type} (id : FileId) (cs pre : List (Child α)) (c : Child α)
    (post : List (Child α)) : Prop where
  eq : cs = pre ++ c :: post
  floor_lt : Child.floor 0 pre < id.get
  le_max : id ≤ c.max.getD FileId.MAX

namespace Child.Route
variable {key : α → FileId}
section
variable (hr : Route id cs pre c post)
include hr

theorem ne_before (hv : Valid key cs) : ∀ f ∈ entries pre, key f ≠ id := by
  obtain ⟨rfl, hfloor, -⟩ := hr
  exact fun f hf => (FileId.lt_def.2 (((chained_append.1 hv.chained).1.entry_le hf).trans_lt hfloor)).ne

theorem ne_after (hv : Valid key cs) : ∀ f ∈ entries post, key f ≠ id := by
  obtain ⟨rfl, -, hmax⟩ := hr
  exact fun f hf => (hv.tail.lt_after hmax hf).ne'

/-- Only the child the separators name can hold the id. -/
theorem lookup_eq (hv : Valid key cs) : lookup key id (entries cs) = lookup key id c.files := by
  have hpre := hr.ne_before hv
  have hpost := hr.ne_after hv
  rw [hr.eq, entries_append, entries_cons]
  exact lookup_middle hpre hpost
end
end Child.Route

theorem FileView.lookup_map (V : FileView α) (id : FileId) (fs : List FileNode)
    (cells : CellId → Option BlockListAccess) :
    lookup V.key id (fs.map (V.mem cells)) = (fs.find? fun f => f.id = id).map (V.mem cells) := by
  simp only [lookup, List.find?_map, Function.comp_def, V.key_mem]

section Find
variable [BlockLayout] {Q : Addr → Store (Disk Block) → Prop} {E : FsError → Store (Disk Block) → Prop}

/-- From the locked root to the leave: a writer keeps the root locked and marks it, a reader lets it
go. -/
theorem NodeRoot.descend (H : NodeRoot V s0 s ptr r rl true d dc cs) (hv : Child.Valid V.key cs)
    (isMut : Bool) (fuel : ℕ)
    (hQ : ∀ a s' pre c post, Child.Route id cs pre c post → NodeRoot V s0 s' ptr r rl isMut d (dc || isMut)
        (pre ++ (c.placed a).withLock true :: post) → Q a s') :
    (descend isMut id (fuel + 2) r).wp Q E s := by
  obtain ⟨pre, c, post, rfl, hidx, hfloor, hmax⟩ := hv.chained.route id.pos
  obtain ⟨children, hr, hchildren⟩ := H.node
  have hroute : routeIndex id children = some pre.length := by
    rw [routeIndex, hchildren]
    exact hidx
  rw [descend]
  simp only [wp_bind, wp_deref, hr, Option.some.injEq, exists_eq_left', wp_assign, hroute, expect_some, wp_pure]
  have H1 : NodeRoot V s0 (s.setNode r (some (.node none children d (dc || isMut) true))) ptr r rl
      true d (dc || isMut) (pre ++ c :: post) :=
    H.setSelf hchildren H.children H.distinct (fun c hc hd => by rw [H.marked c hc hd, Bool.true_or]) H.clean
  refine H1.resolve fun a s2 _ H2 => ?_
  have hunlocked : (c.placed a).locked = false := hv.unlocked c (mem_focus.2 (.inl rfl))
  refine H2.lockChild rfl hunlocked fun s3 H3 => ?_
  -- at the leave the walk ends
  have hend : ∀ s', NodeRoot V s0 s' ptr r rl isMut d (dc || isMut)
      (pre ++ (c.placed a).withLock true :: post) → (descend isMut id (fuel + 1) a).wp Q E s' := by
    intro s' H'
    obtain ⟨fs, hfs, -⟩ := H'.child.leave rfl
    rw [descend]
    simp only [wp_bind, wp_deref, hfs, Option.some.injEq, exists_eq_left', wp_pure]
    exact hQ a s' pre c post ⟨rfl, hfloor, hmax⟩ H'
  rcases isMut with _ | _
  · simp only [false_eq_true, if_false, wp_bind]
    exact H3.unlockSelf hend
  · simp only [if_true]
    exact hend s3 H3

/-- **`find_leave`** loads what is missing and returns the locked leave that can hold `id`. -/
theorem Rep.findLeave {sh : Shape α} (H : Rep V s0 s false sh) (hv : sh.Valid V.key) (isMut : Bool)
    (hleave : ∀ root files d a s', sh = .leave root files d →
      LeafRoot V s0 s' root.devicePtr a isMut true d files → Q a s')
    (hnode : ∀ root cs d dc r a s' pre c post, sh = .node root cs d dc → Child.Route id cs pre c post →
      NodeRoot V s0 s' root.devicePtr r isMut isMut d (dc || isMut)
        (pre ++ (c.placed a).withLock true :: post) → Q a s') :
    (findLeave isMut id).wp Q E s := by
  have hlock : s.tree.rootLock = false := by
    rcases sh with ⟨⟨_ | a, ptr⟩, files, d⟩ | ⟨⟨_ | r, ptr⟩, cs, d, dc⟩
    · exact H.1.rootLock
    · exact LeafRoot.rootLock H
    · exact H.1.rootLock
    · exact NodeRoot.rootLock H
  rw [Store.findLeave]
  simp only [wp_bind, Store.wp_lockRoot]
  refine ⟨hlock, (H.setRootLock true).resolve fun a s1 H1 => ?_⟩
  rcases sh with ⟨root, files, d⟩ | ⟨root, cs, d, dc⟩
  · refine LeafRoot.lockSelf H1 fun s2 H2 => ?_
    have hend : ∀ s', LeafRoot V s0 s' root.devicePtr a isMut true d files →
        (descend isMut id (s'.tree.nextAddr + LBA.addressCount + 1) a).wp Q E s' := by
      intro s' H'
      obtain ⟨fs, hfs, -⟩ := H'.leave
      rw [descend]
      simp only [wp_bind, wp_deref, hfs, Option.some.injEq, exists_eq_left', wp_pure]
      exact hleave root files d a s' rfl H'
    rcases isMut with _ | _
    · simp only [false_eq_true, if_false, wp_bind, wp_unlockRoot, wp_get]
      exact ⟨H2.rootLock, hend _ (H2.setRootLock false)⟩
    · simp only [if_true, wp_bind, wp_get]
      exact hend _ H2
  · refine NodeRoot.lockSelf H1 fun s2 H2 => ?_
    have hend : ∀ s', NodeRoot V s0 s' root.devicePtr a isMut true d dc cs →
        (descend isMut id (s'.tree.nextAddr + LBA.addressCount + 1) a).wp Q E s' := by
      intro s' H'
      exact H'.descend hv isMut _ fun b s'' pre c post hroute H'' =>
        hnode root cs d dc a b s'' pre c post rfl hroute H''
    rcases isMut with _ | _
    · simp only [false_eq_true, if_false, wp_bind, wp_unlockRoot, wp_get]
      exact ⟨H2.rootLock, hend _ (H2.setRootLock false)⟩
    · simp only [if_true, wp_bind, wp_get]
      exact hend _ H2

/-- **`find`** answers with the file of that id, and the tree stays as it is but for what was
loaded. -/
theorem Rep.find {sh : Shape α} {Q : Option FileNode → Store (Disk Block) → Prop}
    (H : Rep V s0 s false sh) (hv : sh.Valid V.key)
    (hQ : ∀ file s' sh', Rep V s0 s' false sh' → sh'.Valid V.key → sh'.entries = sh.entries →
      sh'.ptrs = sh.ptrs → file.map (V.mem s'.tree.cells) = lookup V.key id sh.entries → Q file s') :
    (Store.find id).wp Q E s := by
  rw [Store.find]
  simp only [wp_bind]
  refine H.findLeave hv false ?_ ?_
  · rintro root files d a s1 rfl H1
    obtain ⟨fs, hfs, hfiles, hheld⟩ := H1.leave
    simp only [wp_deref, hfs, Option.some.injEq, exists_eq_left', wp_bind, wp_pure]
    refine H1.rebase.unlockSelf fun s2 H2 => ?_
    refine hQ _ s2 (.leave ⟨some a, root.devicePtr⟩ files d) (H2.after H1.frame) hv rfl rfl ?_
    rw [← V.lookup_map, H2.frame.map_mem_eq hheld, hfiles]
    rfl
  · rintro root cs d dc r a s1 pre c post rfl hroute H1
    obtain ⟨fs, hfs, hfiles, hheld⟩ := H1.child.leave rfl
    simp only [wp_deref, hfs, Option.some.injEq, exists_eq_left', wp_bind, wp_pure]
    refine H1.rebase.unlockChild rfl rfl fun s2 H2 => ?_
    have hlookup := hroute.lookup_eq hv
    obtain rfl := hroute.eq
    have hc : c ∈ pre ++ c :: post := mem_focus.2 (.inl rfl)
    refine hQ _ s2 (.node ⟨some r, root.devicePtr⟩ (pre ++ (c.placed a).withLock false :: post) d dc)
      (Bool.or_false dc ▸ H2.after H1.frame) ?_ ?_ ?_ ?_
    · have hfits := hv.fits c hc
      exact Child.Valid.setFiles hv rfl ⟨hfits.sorted, hfits.half, hfits.le_max⟩ rfl hv.tail.1
    · simp [Shape.entries, Child.placed, Child.withLock]
    · simp [Shape.ptrs, Child.placed, Child.withLock, List.filterMap_cons]
    · rw [← V.lookup_map, H2.frame.map_mem_eq hheld, hfiles]
      exact hlookup.symm
end Find
end WasabiOS
