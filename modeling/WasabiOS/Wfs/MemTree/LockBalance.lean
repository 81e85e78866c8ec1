import WasabiOS.Machinery.Run
import WasabiOS.Wfs.MemTree.LockDelete

/-!
# Wfs/MemTree/LockBalance — a call that returns has released its locks, unless its walk could not read

`flush_to_device` locks a node while it writes what is below it, and its guards release on every way
out.  Together with the walks, inserts and deletes: **a call on a tree with no lock taken returns with
no lock taken if and only if no device read fails on its way to the leave** (`released_iff`).  A read
that fails there returns with `?` and leaves the locks of the way taken, and the next call that comes
along deadlocks.

The trees here are all those with levels, of any height and with any part of them unloaded, which every
call keeps (`settled_run`).
-/

open Machinery Prog
namespace WasabiOS
open Option Set Run
variable {D : Type}

/-! ## Flush -/

/-- The nodes are where they were, and so are the locks. -/
structure Kept (level : Addr → ℤ) (top : ℤ) (s s' : Store D) : Prop extends Levelled level top s'.tree where
  held_eq : s'.tree.held = s.tree.held
  rootLock_eq : s'.tree.rootLock = s.tree.rootLock

/-- A program that leaves nodes and locks as they were, on both ways out. -/
def Keeps {ε α : Type} (level : Addr → ℤ) (top : ℤ) (m : Prog (Store D) ε α) : Prop := ∀ s, Levelled level top s.tree →
    m.meets (fun _ s' => Kept level top s s') (fun _ s' => Kept level top s s') True s

variable {s s' s'' : Store D} {top : ℤ} {level : Addr → ℤ}

theorem Kept.refl (h : Levelled level top s.tree) : Kept level top s s := ⟨h, rfl, rfl⟩

theorem Kept.trans (h : Kept level top s s') (h' : Kept level top s' s'') : Kept level top s s'' :=
  ⟨h'.toLevelled, h'.held_eq.trans h.held_eq, h'.rootLock_eq.trans h.rootLock_eq⟩

/-- A node is overwritten by one with the same parent and lock. -/
theorem Kept.assign {a : Addr} {n n' : MemTreeNode} (h : Levelled level top s.tree)
    (ha : s.tree.nodes a = some n) (hparent : n'.getParent = n.getParent)
    (hlock : n'.isLocked = n.isLocked)
    (hlinks : ∀ link ∈ n'.links, LinkFits s.tree.nextAddr level (level a) link) :
    Kept level top s (s.setNode a (some n')) :=
  ⟨h.assign ha hparent hlinks, MemTree.held_setNode_of_eq ha hlock, rfl⟩

namespace Keeps
variable {ε α β : Type}

theorem of_forall {m : Prog (Store D) ε α}
    (h : ∀ s, m.meets (fun _ s' => s'.tree = s.tree) (fun _ s' => s'.tree = s.tree) True s) :
    Keeps level top m := by
  intro s hs
  refine meets_mono (h s) ?_ ?_ fun hf => hf
  all_goals
    intro _ s' htree
    exact ⟨htree ▸ hs, by rw [htree], by rw [htree]⟩

theorem pure (a : α) : Keeps level top (pure a : Prog (Store D) ε α) := fun _ hs => .refl hs

theorem bind {m : Prog (Store D) ε α} {f : α → Prog (Store D) ε β} (hm : Keeps level top m)
    (hf : ∀ a, Keeps level top (f a)) : Keeps level top (m >>= f) := by
  intro s hs
  rw [meets_bind]
  refine meets_mono (hm s hs) (fun a s' hk => ?_) (fun _ _ hk => hk) fun hf => hf
  exact meets_mono (hf a s' hk.toLevelled) (fun _ _ hk' => hk.trans hk') (fun _ _ hk' => hk.trans hk') fun hf => hf

theorem assert (b : Bool) : Keeps level top (assert b : Prog (Store D) ε Unit) := fun _ hs =>
  meets_assert.2 ⟨fun _ => .refl hs, fun _ => trivial⟩

theorem expect (o : Option α) : Keeps level top (expect o : Prog (Store D) ε α) := fun _ hs =>
  meets_expect.2 ⟨fun _ _ => .refl hs, fun _ => trivial⟩

theorem deref (a : Addr) : Keeps level top (Store.deref a : Prog (Store D) ε _) := fun _ hs =>
  Store.meets_deref.2 ⟨fun _ _ => .refl hs, fun _ => trivial⟩

theorem onDevice (m : Prog D ε α) : Keeps level top (Store.onDevice m) :=
  of_forall fun _ => meets_zoom_of_forall (fun _ _ => rfl) (fun _ _ => rfl) trivial

theorem onAllocator (m : Prog BlockAllocator ε α) : Keeps level top (Store.onAllocator m : Prog (Store D) ε α) :=
  of_forall fun _ => meets_zoom_of_forall (fun _ _ => rfl) (fun _ _ => rfl) trivial

theorem onBlocks (m : Prog (BlockAllocator × D) ε α) : Keeps level top (Store.onBlocks m) :=
  of_forall fun _ => meets_zoom_of_forall (fun _ _ => rfl) (fun _ _ => rfl) trivial

theorem readCell (c : CellId) : Keeps level top (Store.readCell c : Prog (Store D) ε _) := by
  intro s hs
  rw [Store.readCell, meets_bind, meets_get]
  cases s.tree.cells c with
  | none => trivial
  | some access => exact .refl hs

theorem writeCell (c : CellId) (access : BlockListAccess) :
    Keeps level top (Store.writeCell c access : Prog (Store D) ε Unit) :=
  fun _ hs => ⟨hs.congr rfl rfl rfl, rfl, rfl⟩

/-- The guard of a node releases its lock on both ways out. -/
theorem withNodeLock {m : Prog (Store D) ε α} (hm : Keeps level top m) (a : Addr) :
    Keeps level top (Store.withNodeLock a m) := by
  intro s hs
  simp only [Store.withNodeLock, meets_bind, Store.meets_lockNode, Prog.meets_attempt, implies_true, and_true]
  intro n hn hfree
  have hnot : a ∉ s.tree.held := by
    rw [MemTree.mem_held_of_some hn, hfree]
    exact Bool.false_ne_true
  have hend : ∀ s', Kept level top (s.setNode a (some (n.setLock true))) s' → ∀ n',
      s'.tree.nodes a = some n' → Kept level top s (s'.setNode a (some (n'.setLock false))) := by
    intro s' hk n' hn'
    refine ⟨hk.setLock hn' false, ?_, hk.rootLock_eq⟩
    rw [MemTree.held_unlock MemTreeNode.isLocked_setLock, hk.held_eq, MemTree.held_lock
      MemTreeNode.isLocked_setLock, insert_sdiff_self_of_notMem hnot]
  refine meets_mono (hm _ (hs.setLock hn true)) ?_ ?_ fun hf => hf
  all_goals
    intro _ s' hk
    simp only [Store.meets_unlockNode, implies_true, and_true]
    exact fun n' hn' _ => hend s' hk n' hn'

theorem getLink (place : LinkPlace) : Keeps level top (Store.getLink place : Prog (Store D) ε _) := by
  intro s hs
  cases place with
  | root => exact .refl hs
  | child a i =>
    simp only [Store.getLink, meets_bind, Store.meets_getChildren_true, meets_expect,
      meets_pure, implies_true, and_true]
    intros
    exact .refl hs

/-- The device pointer of a link changes. -/
theorem setDevicePtr (place : LinkPlace) (ptr : DevicePointer .treeNode)
    {f : MemTreeLink → Prog (Store D) ε β} (hf : ∀ link, Keeps level top (f link)) :
    Keeps level top (Store.getLink place >>= fun link =>
      Store.setLink place { link with devicePtr := some ptr } >>= fun _ => f link) := by
  intro s hs
  have hrest : ∀ s' link, Kept level top s s' → (f link).meets (fun _ s'' => Kept level top s s'')
      (fun _ s'' => Kept level top s s'') True s' := fun s' link hk =>
    meets_mono (hf link s' hk.toLevelled) (fun _ _ hk' => hk.trans hk') (fun _ _ hk' => hk.trans hk') fun hf => hf
  cases place with
  | root => exact hrest _ _ ⟨hs.congr rfl rfl rfl, rfl, rfl⟩
  | child a i =>
    simp only [Store.getLink, Store.setLink, meets_bind, Store.meets_getChildren_true,
      meets_expect, meets_pure, meets_lift, implies_true, and_true]
    intro p cs d dc l hn c hc p' cs' d' dc' l' hn' c' hc' cs'' hset
    rw [Store.meets_setChildren hn']
    refine hrest _ _ (.assign hs hn' rfl rfl fun link hlink => ?_)
    obtain ⟨e, he, rfl⟩ := List.mem_map.1 hlink
    rcases StaticVec.mem_of_setIdx hset he with rfl | he
    · exact hs.child (c := c) hn (List.mem_of_getElem? hc)
    · exact hs.child hn' he

theorem setDirty (a : Addr) (value : Bool) : Keeps level top (do Store.assign a ((← Store.deref a).setDirty value) :
      Prog (Store D) ε Unit) := by
  intro s hs
  simp only [meets_bind, Store.meets_deref, Store.meets_assign, implies_true, and_true]
  intro n hn
  cases n with
  | node p cs d dc l | leave p files d l => exact .assign hs hn rfl rfl (hs.fits a _ hn).links

theorem clearDirtyChildren (a : Addr) : Keeps level top (Store.clearDirtyChildren a : Prog (Store D) ε Unit) := by
  intro s hs
  simp only [Store.clearDirtyChildren, meets_bind, Store.meets_deref, implies_true, and_true]
  intro n hn
  cases n with
  | node p cs d dc l => exact .assign hs hn rfl rfl (hs.fits a _ hn).links
  | leave p files d l => exact .refl hs

theorem deviceChildren : ∀ links : List (MemTreeLink × Option FileId),
    Keeps level top (Store.deviceChildren links : Prog (Store D) ε _)
  | [] => .pure _
  | (_, _) :: rest => (expect _).bind fun _ => (deviceChildren rest).bind fun _ => .pure _

variable [BlockDevice D Block]

theorem writeFile (f : FileNode) : Keeps level top (Store.writeFile f : Prog (Store D) FsError _) := by
  refine (readCell _).bind fun access => ?_
  cases access with
  | onDevice head => exact .pure _
  | inMem list | both list head => exact (onBlocks _).bind fun _ => (writeCell _ _).bind fun _ => .pure _

theorem writeFiles : ∀ files : List FileNode, Keeps level top (Store.writeFiles files : Prog (Store D) FsError _)
  | [] => .pure _
  | f :: fs => (writeFile f).bind fun _ => (writeFiles fs).bind fun _ => .pure _

theorem treeNodeOf (n : MemTreeNode) : Keeps level top (Store.treeNodeOf n : Prog (Store D) FsError _) := by
  cases n with
  | node p cs d dc l => exact (deviceChildren _).bind fun _ => .pure _
  | leave p files d l => exact (writeFiles _).bind fun _ => .pure _

theorem writeNode (place : LinkPlace) (a : Addr) :
    Keeps level top (Store.writeNode place a : Prog (Store D) FsError Unit) := by
  have htail : ∀ lba, Keeps level top (do
      let treeNode ← Store.treeNodeOf (← Store.deref a)
      Store.onDevice (mapErr mapDeviceError (BlockDevice.writeBlock lba (.treeNode treeNode)))
      Store.assign a ((← Store.deref a).setDirty false) : Prog (Store D) FsError Unit) := fun _ =>
    (deref a).bind fun n => (treeNodeOf n).bind fun _ => (onDevice _).bind fun _ => setDirty a false
  refine (onAllocator _).bind fun lba => setDevicePtr place ⟨lba⟩ fun link => ?_
  rcases link.devicePtr with _ | old
  · exact htail lba
  · exact (onAllocator _).bind fun _ => htail lba

omit [BlockDevice D Block] in
theorem flushAll {flush : LinkPlace → Prog (Store D) FsError Unit} (h : ∀ place, Keeps level top (flush place)) :
    ∀ places, Keeps level top (Store.flushAll flush places)
  | [] => .pure _
  | place :: rest => (h place).bind fun _ => flushAll h rest

/-- **`MemTreeLink::flush_to_device`** -/
theorem flushLink : ∀ (fuel : ℕ) (place : LinkPlace),
    Keeps level top (Store.flushLink fuel place : Prog (Store D) FsError Unit)
  | 0, _ => fun _ _ => trivial
  | fuel + 1, place => by
    refine (getLink place).bind fun link => ?_
    rcases link.node with _ | a
    · exact assert _
    · refine withNodeLock ((deref a).bind fun n => ?_) a
      have hwrite : ∀ dirty : Bool, Keeps level top (if dirty = true then Store.writeNode place a else Pure.pure () :
            Prog (Store D) FsError Unit) := fun dirty => by
        cases dirty with
        | false => exact .pure _
        | true => exact writeNode place a
      cases n with
      | node p cs dirty dc l =>
        cases dc with
        | false => exact hwrite dirty
        | true =>
          exact (flushAll (flushLink fuel) _).bind fun _ => (clearDirtyChildren a).bind fun _ => hwrite dirty
      | leave p files dirty l => exact hwrite dirty
end Keeps

/-! ## Trees to start from -/

namespace MemTree

/-- The tree of a file system that has just been opened. -/
def mounted (root : DevicePointer .treeNode) : MemTree :=
  { invalid with root := { node := none, devicePtr := some root } }

theorem settled_mounted (root : DevicePointer .treeNode) : (mounted root).Settled := by
  refine ⟨⟨fun _ => 0, 0, ?_, ?_, ?_, ?_⟩, rfl, eq_empty_of_forall_notMem ?_⟩
  · exact nofun
  · exact nofun
  · exact nofun
  · exact nofun
  · rintro a ⟨n, ha, -⟩
    cases ha

theorem settled_empty : empty.Settled := by
  have hnodes : ∀ a n, empty.nodes a = some n → a = 0 ∧ n = .leave none StaticVec.new true false := by
    intro a n h
    simp only [empty, Function.update_apply] at h
    split at h
    · exact ⟨‹_›, (Option.some.inj h).symm⟩
    · cases h
  refine ⟨⟨fun _ => 0, 0, ?_, ?_, ?_, ?_⟩, rfl, eq_empty_of_forall_notMem ?_⟩
  · exact fun a ha => Option.some.inj ha ▸ ⟨zero_lt_one, rfl⟩
  · exact fun a n ha => (hnodes a n ha).1 ▸ zero_lt_one
  · intro a n ha
    obtain ⟨rfl, rfl⟩ := hnodes a n ha
    exact nodeFits_leave.2 nofun
  · intro a n ha
    obtain ⟨rfl, rfl⟩ := hnodes a n ha
    exact iff_of_true rfl rfl
  · rintro a ⟨n, ha, hlock⟩
    obtain ⟨rfl, rfl⟩ := hnodes a n ha
    cases hlock
end MemTree

/-! ## Calls -/

/-- A call of the tree that takes locks. -/
inductive TreeOp where
  | find (id : FileId)
  | insertNew (file : FileNode)
  | update (file : FileNode)
  | delete (id : FileId)
  | flushToDevice

section Calls
variable [BlockDevice D Block] {s : Store D}
namespace TreeOp

/-- The call, without what it answers. -/
def run : TreeOp → Prog (Store D) FsError Unit
  | find id => do let _ ← Store.find id
  | insertNew file => mapErr FsError.ofMemTreeError (Store.insertNew file)
  | update file => mapErr FsError.ofMemTreeError (Store.update file)
  | delete id => do let _ ← mapErr FsError.ofMemTreeError (Store.delete id)
  | flushToDevice => do let _ ← Store.flushToDevice

/-- The state a call leaves, if it returns. -/
def step (op : TreeOp) (s : Store D) : Option (Store D) := (op.run s).state?

/-- Whether a device read fails on the way to the leave the call needs. -/
def readFails : TreeOp → Store D → Bool
  | find id, s | delete id, s => walkFails id s
  | insertNew file, s | update file, s => walkFails file.id s
  | flushToDevice, _ => false

/-- If the call returns, then with every lock released. -/
def Releases (op : TreeOp) (s : Store D) : Prop := ∀ s' ∈ op.step s, s'.tree.Unlocked
end TreeOp

/-- What a call on a settled tree comes to. -/
def Balances {ε α : Type} (fails : Bool) (m : Prog (Store D) ε α) (s : Store D) : Prop :=
  m.meets (fun _ s' => fails = false ∧ s'.tree.Settled)
    (fun _ s' => fails = true ∧ ¬ s'.tree.Unlocked ∨ fails = false ∧ s'.tree.Settled)
    (fails = false) s

omit [BlockDevice D Block] in
theorem Balances.mapErr {ε ε' α : Type} {fails : Bool} {m : Prog (Store D) ε α} {g : ε → ε'}
    (h : Balances fails m s) : Balances fails (mapErr g m) s :=
  meets_mapErr.2 h

omit [BlockDevice D Block] in
/-- After a walk that succeeds, a call that releases what the walk took is balanced. -/
theorem Balances.afterWalk {ε α : Type} {fails isMut : Bool} {walk : Prog (Store D) ε Addr}
    {rest : Addr → Prog (Store D) ε α}
    (hwalk : walk.meets (fun a s' => fails = false ∧ ∃ level, Walker isMut level top a s'.tree)
      (fun _ s' => fails = true ∧ ¬ s'.tree.Unlocked) (fails = false) s)
    (hrest : ∀ level a s', Walker isMut level top a s'.tree → Settles (rest a) s') :
    Balances fails (walk >>= rest) s := by
  rw [Balances, meets_bind]
  refine meets_mono hwalk ?_ (fun _ _ he => .inl he) fun hf => hf
  rintro a s' ⟨hok, level, hw⟩
  exact meets_mono (hrest level a s' hw) (fun _ _ hs => ⟨hok, hs⟩) (fun _ _ hs => .inr ⟨hok, hs⟩) fun _ => hok

section
variable (h : s.tree.Settled)
include h

theorem MemTree.Settled.find (id : FileId) :
    Balances (walkFails id s) (Store.find id : Prog (Store D) FsError _) s := by
  obtain ⟨⟨level, top, hlevel⟩, hu⟩ := h
  refine Balances.afterWalk (findLeave_meets hlevel hu false) fun level a s' hw => ?_
  simp only [meets_bind, Store.meets_deref, implies_true, and_true]
  intro n ha
  cases n with
  | node p cs d dc l => trivial
  | leave p files d l =>
    simp only [meets_bind, Store.meets_unlockNode, meets_pure, implies_true, and_true]
    intro n' hn' _
    refine ⟨⟨level, top, hw.toLevelled.setLock hn' false⟩, hw.rootLock, ?_⟩
    rw [MemTree.held_unlock MemTreeNode.isLocked_setLock, hw.alone rfl, sdiff_self]

theorem MemTree.Settled.insert (file : FileNode) (createOnly : Bool) :
    Balances (walkFails file.id s) (Store.insert file createOnly : Prog (Store D) MemTreeError _) s := by
  obtain ⟨⟨level, top, hlevel⟩, hu⟩ := h
  exact Balances.afterWalk (meets_mapErr.2 (findLeave_meets hlevel hu true))
    fun level a s' hw => hw.insertInto file createOnly

theorem MemTree.Settled.delete (id : FileId) :
    Balances (walkFails id s) (Store.delete id : Prog (Store D) MemTreeError _) s := by
  obtain ⟨⟨level, top, hlevel⟩, hu⟩ := h
  exact Balances.afterWalk (meets_mapErr.2 (findLeave_meets hlevel hu true)) fun level a s' hw => hw.deleteFrom id

/-- The guard of the root link, around a flush of the root. -/
theorem MemTree.Settled.flushToDevice : Balances false (Store.flushToDevice : Prog (Store D) FsError _) s := by
  obtain ⟨⟨level, top, hlevel⟩, hu⟩ := h
  simp only [Balances, Store.flushToDevice, meets_bind, Store.meets_lockRoot, meets_get,
    Prog.meets_attempt, Store.meets_getLink_root, meets_expect, Store.meets_unlockRoot,
    implies_true, and_true]
  intro _
  have hend : ∀ s', Kept level top (s.setRootLock true) s' → (s'.setRootLock false).tree.Settled := fun s' hk =>
    ⟨⟨level, top, hk.toLevelled.setRootLock false⟩, rfl, hk.held_eq.trans hu.held⟩
  refine meets_mono (Keeps.flushLink _ .root _ (hlevel.setRootLock true)) ?_ ?_ fun hf => hf
  · intro _ s' hk ptr _ _
    exact ⟨trivial, hend s' hk⟩
  · intro e s' hk ptr _ _
    exact .inr ⟨trivial, hend s' hk⟩
end

/-- **One call** on a settled tree. -/
theorem TreeOp.balances (op : TreeOp) (h : s.tree.Settled) : Balances (op.readFails s) op.run s := by
  have hdrop : ∀ {α : Type} {fails : Bool} {m : Prog (Store D) FsError α}, Balances fails m s →
      Balances fails (m >>= fun _ => pure ()) s := by
    intro α fails m hm
    rw [Balances, meets_bind]
    exact hm
  cases op with
  | find id => exact hdrop (h.find id)
  | insertNew file => exact (h.insert file true).mapErr
  | update file => exact (h.insert file false).mapErr
  | delete id => exact hdrop (h.delete id).mapErr
  | flushToDevice => exact hdrop h.flushToDevice

theorem one_lt_u64Size : 1 < u64Size - 1 := by decide

/-- A file system that has just been opened, on a device whose root node is an empty leave and whose
`n`-th operation fails if `fails n`. -/
def justOpened (fails : ℕ → Bool) : Store (FlakyDisk Block) where
  tree := .mounted ⟨⟨1, one_lt_u64Size⟩⟩
  allocator := { free := [], onDisk := none, selfOnDisk := [], dirty := false }
  device :=
    { disk := { size := 2, blocks := fun _ => .treeNode (.leave .new), writes := [] }
      fails := fails
      count := 0 }

end Calls

/-! ## The check -/

namespace Store
variable {ε : Type} {s t u : Store D} {m k : Prog (Store D) ε Unit}

/-- A run from `s` that returns ends in `t`. -/
def Leaves (m : Prog (Store D) ε Unit) (s t : Store D) : Prop := m.meets (fun _ s' => s' = t) (fun _ _ => False) True s

theorem Leaves.bind (h : Leaves m s t) (hk : Leaves k t u) : Leaves (do m; k) s u :=
  (meets_bind _ _).2 (meets_mono h (fun _ _ hs => hs ▸ hk) (fun _ _ h => h) id)

theorem leaves_assertValidNode (fuel : ℕ) (parent : Option Addr) (a : Addr) (s : Store D) :
    Leaves (assertValidNode fuel parent a : Prog (Store D) ε Unit) s s := by
  induction fuel generalizing parent a s with
  | zero => trivial
  | succ fuel ih =>
    simp only [Leaves, assertValidNode, meets_bind, meets_lockNode, meets_deref, meets_assert, implies_true, and_true]
    intro n hn hlock m _ _ _
    have hunlock : Leaves (unlockNode a : Prog _ ε _) (s.setNode a (some (n.setLock true))) s := by
      have hsame : (n.setLock true).setLock false = n := by cases n <;> exact hlock ▸ rfl
      simp only [Leaves, meets_unlockNode, setNode_nodes_self, implies_true, and_true]
      rintro _ ⟨⟩ -
      rw [hsame, setNode_setNode_self, setNode, ← hn, Function.update_eq_self]
    have hall (as : List Addr) (s : Store D) :
        Leaves (checkAll (assertValidNode fuel (some a)) as : Prog _ ε _) s s := by
      induction as with
      | nil => rfl
      | cons b as ih' => exact (ih _ b s).bind ih'
    cases m with
    | leave =>
      simp only [meets_bind, meets_assert, implies_true, and_true]
      exact fun _ => hunlock
    | node =>
      simp only [meets_assert, meets_expect, meets_bind, implies_true, and_true]
      exact fun _ _ _ _ => (meets_bind _ _).1 ((hall _ _).bind hunlock)

/-- **The check changes nothing**: if `assert_valid` returns, the tree and its locks are as before. -/
theorem leaves_assertValid : Leaves (assertValid : Prog _ ε _) s s := by
  simp only [Leaves, assertValid, meets_bind, meets_lockRoot, meets_get, meets_expect, implies_true, and_true]
  intro hlock r _
  refine (meets_bind _ _).1 ((leaves_assertValidNode _ _ _ _).bind ?_)
  simp only [Leaves, meets_unlockRoot, implies_true, and_true]
  rintro -
  rw [setRootLock, setRootLock, ← hlock]

example (b : BlockAllocator) : ∃ t, (assertValid : Prog _ Unit _) ⟨.empty, b, ()⟩ = .ok () t := ⟨_, rfl⟩
end Store
end WasabiOS
