import WasabiOS.Machinery.Walk
import WasabiOS.Wfs.Readers

/-!
# Wfs/ReadersTotal — when reading an untrusted device comes back

Of a `Medium` nothing is known: a block read as a structure of some kind is one, or an error, or no value of
that kind at all.  What a step of a reader does on it is a `Move`: go on, come back with an error, or get stuck
in a panic; `Does` says so.  Each reader is such a walk, and comes back exactly if the walk ends:

* whatever block it comes to is a structure of the kind it is read as,
* the chain of blocks it follows ends, be it by an error: chains of blocks that add nothing need not,
* the memory that cannot be refused is there, and none is asked for beyond `isize::MAX` bytes,
* no name is longer than the head it starts in, unless the head is a whole block, and
* the groups of a free list are in order and apart.
-/

open Machinery Prog Machinery.Walk
namespace WasabiOS
open BlockAllocator List

/-- A device of which nothing is known. -/
structure Medium where
  /-- what a block is, read as a structure of some kind; nothing if its bytes are no value of the kind -/
  look : (k : BlockKind) → LBA → Option (Except DeviceError k.Content)

namespace Medium

instance instPointerDevice : PointerDevice Medium where
  readPointer {k} ptr := fun d =>
    match d.look k ptr.lba with
    | some (.ok content) => .ok content d
    | some (.error e) => .err e d
    | none => .fault .undefined

/-- The structure behind a pointer. -/
def read {k : BlockKind} (d : Medium) (ptr : DevicePointer k) : Move k.Content :=
  match d.look k ptr.lba with
  | some (.ok content) => .go content
  | some (.error _) => .halt
  | none => .stuck
end Medium

namespace Reservation
variable {α : Type}

/-- A request that may be refused. -/
def tried : Reservation α → Move α
  | granted a => .go a
  | allocError => .halt
  | capacityOverflow => .stuck

/-- A request that may not. -/
def needed : Reservation α → Move α
  | granted a => .go a
  | allocError => .stuck
  | capacityOverflow => .stuck

variable {r : Reservation α} {P : α → Prop}

theorem holds_needed : r.needed.Holds P ↔ ∃ a, r = granted a ∧ P a := by cases r <;> simp [needed]
end Reservation

/-! ## What a program does -/

/-- The program does as the move says, and leaves the state alone. -/
def Does {σ ε α : Type} (m : Prog σ ε α) (s : σ) : Move α → Prop
  | .halt => ∃ e, m s = .err e s
  | .go a => m s = .ok a s
  | .stuck => ∃ φ, m s = .fault φ

/-- The program returns, be it an error. -/
def Comes {σ ε α : Type} (m : Prog σ ε α) (s : σ) : Prop := m.wp (fun _ _ => True) (fun _ _ => True) s

/-- With enough fuel the program returns. -/
def Total {σ ε α : Type} (m : ℕ → Prog σ ε α) (s : σ) : Prop := Enough fun fuel => Comes (m fuel) s

variable {σ ε ε' α β : Type} {m : Prog σ ε α} {f : α → Prog σ ε β} {s : σ} {r : Move α}

theorem Does.comes_bind (h : Does m s r) : Comes (m >>= f) s ↔ r.Holds fun a => Comes (f a) s := by
  unfold Comes
  rw [wp_bind]
  cases r with
  | halt =>
    obtain ⟨e, h⟩ := h
    simp only [wp_of_err h, Move.holds_halt]
  | go a => exact wp_of_ok h
  | stuck =>
    obtain ⟨φ, h⟩ := h
    rw [Prog.wp, h]
    rfl

theorem Does.bind {r' : α → Move β} (h : Does m s r) (hf : ∀ a, Does (f a) s (r' a)) :
    Does (m >>= f) s (r.bind r') := by
  cases r with
  | halt =>
    obtain ⟨e, h⟩ := h
    exact ⟨e, by rw [bind_apply, h, Outcome.andThen_err]⟩
  | go a =>
    have hgo : (m >>= f) s = f a s := by rw [bind_apply, h, andThen_ok]
    have := hf a
    unfold Does at this ⊢
    rwa [Move.go_bind, hgo]
  | stuck =>
    obtain ⟨φ, h⟩ := h
    exact ⟨φ, by rw [bind_apply, h, Outcome.andThen_fault]⟩

theorem Does.mapErr {g : ε → ε'} (h : Does m s r) : Does (mapErr g m) s r := by
  cases r with
  | halt =>
    obtain ⟨e, h⟩ := h
    exact ⟨g e, mapErr_err h⟩
  | go a => exact mapErr_ok h
  | stuck =>
    obtain ⟨φ, h⟩ := h
    exact ⟨φ, mapErr_fault h⟩

/-- What always comes back does not matter. -/
theorem comes_bind_iff (hf : ∀ a s', Comes (f a) s') : Comes (m >>= f) s ↔ Comes m s := by
  unfold Comes
  rw [wp_bind]
  exact ⟨fun h => wp_mono h (fun _ _ _ => trivial) fun _ _ h => h,
    fun h => wp_mono h (fun a s' _ => hf a s') fun _ _ h => h⟩

theorem comes_pure (a : α) : Comes (pure a : Prog σ ε α) s := trivial

theorem comes_throw (e : ε) : Comes (Prog.throw e : Prog σ ε α) s := trivial

theorem comes_assert_bind {b : Bool} {f : Unit → Prog σ ε β} :
    Comes (assert b >>= f) s ↔ b = true ∧ Comes (f ()) s := by
  unfold Comes
  rw [wp_bind, wp_assert]

theorem does_orFsError (r : Reservation α) : Does (r.orFsError : Prog σ FsError α) s r.tried := by
  cases r with
  | granted a => rfl
  | allocError => exact ⟨_, rfl⟩
  | capacityOverflow => exact ⟨_, rfl⟩

theorem does_orAbort (r : Reservation α) : Does (r.orAbort : Prog σ ε α) s r.needed := by
  cases r with
  | granted a => rfl
  | allocError => exact ⟨_, rfl⟩
  | capacityOverflow => exact ⟨_, rfl⟩

theorem does_readPointer {k : BlockKind} (ptr : DevicePointer k) (d : Medium) :
    Does (PointerDevice.readPointer ptr) d (d.read ptr) := by
  unfold Medium.read
  cases h : d.look k ptr.lba with
  | none => exact ⟨.undefined, by simp only [PointerDevice.readPointer, h]⟩
  | some r =>
    cases r with
    | error e => exact ⟨e, by simp only [PointerDevice.readPointer, h]⟩
    | ok c =>
      show PointerDevice.readPointer ptr d = .ok c d
      simp only [PointerDevice.readPointer, h]

/-! ## Strings -/

/-- One round of reading the parts of a string: the bytes that remain, and where. -/
def stringMove (d : Medium) :
    ℕ × Option (DevicePointer .blockStringPart) → Move (ℕ × Option (DevicePointer .blockStringPart))
  | (0, _) => .halt
  | (_ + 1, none) => .halt
  | (remaining + 1, some ptr) => (d.read ptr).bind fun part =>
    .go (remaining + 1 - min (remaining + 1) BLOCK_STRING_PART_DATA_LENGTH, part.next)

variable {d : Medium} {grants : ℕ → Bool}

theorem loops_string : Loops (fun fuel s => Comes (readStringPartsIn fuel s.1 s.2) d) (stringMove d) where
  succ fuel s := by
    obtain ⟨_ | remaining, _ | ptr⟩ := s
    · exact iff_of_true trivial trivial
    · exact iff_of_true trivial trivial
    · exact iff_of_true trivial trivial
    · rw [readStringPartsIn, if_neg (Nat.succ_ne_zero remaining), (does_readPointer ptr d).mapErr.comes_bind,
        stringMove, Move.holds_bind]
      simp only [comes_bind_iff fun _ _ => comes_pure _, Move.holds_go]
  zero s h := by
    obtain ⟨_ | remaining, ptr⟩ := s
    · rfl
    · exact False.elim h

theorem fst_lt_of_stringMove {s t : ℕ × Option (DevicePointer .blockStringPart)} (h : stringMove d s = .go t) :
    t.1 < s.1 := by
  obtain ⟨_ | remaining, _ | ptr⟩ := s
  · cases h
  · cases h
  · cases h
  · rw [stringMove] at h
    cases hpart : d.read ptr with
    | halt => rw [hpart] at h; cases h
    | stuck => rw [hpart] at h; cases h
    | go part =>
      rw [hpart] at h
      cases h
      have : 0 < BLOCK_STRING_PART_DATA_LENGTH := by decide
      show remaining + 1 - min (remaining + 1) BLOCK_STRING_PART_DATA_LENGTH < remaining + 1
      omega

/-- The memory has the bytes of the string, the head has room for those that are to be in it, and the parts end. -/
def StringEnds (grants : ℕ → Bool) (d : Medium) {N : ℕ} (head : DeviceStringHead N) : Prop :=
  requestBytes grants head.length = .granted () ∧ min head.length BLOCK_STRING_DATA_LENGTH ≤ N ∧
    Ends (stringMove d) (head.length - min head.length BLOCK_STRING_DATA_LENGTH, head.next)

theorem comes_readStringHeadIn {N : ℕ} (head : DeviceStringHead N) :
    Comes (readStringHeadIn grants head) d ↔ StringEnds grants d head := by
  have hparts : Comes (readStringPartsIn head.length (head.length - min head.length BLOCK_STRING_DATA_LENGTH)
      head.next) d ↔ Ends (stringMove d) (head.length - min head.length BLOCK_STRING_DATA_LENGTH, head.next) := by
    refine loops_string.returns_iff_ends (μ := Prod.fst)
      (s := (head.length - min head.length BLOCK_STRING_DATA_LENGTH, head.next))
      (fun _ _ => fst_lt_of_stringMove) ?_ (Nat.sub_le _ _)
    rintro ⟨_, ptr⟩ rfl
    exact trivial
  rw [readStringHeadIn, (does_orAbort _).comes_bind, Reservation.holds_needed, StringEnds, ← hparts]
  simp only [comes_assert_bind, decide_eq_true_eq]
  rw [comes_bind_iff]
  · exact ⟨fun ⟨_, h, hrest⟩ => ⟨h, hrest⟩, fun ⟨h, hrest⟩ => ⟨(), h, hrest⟩⟩
  · intro rest s'
    split
    · exact comes_pure _
    · exact comes_throw _

/-! ## Directories -/

/-- Reading a name, which starts in a head of 100 bytes and has no parts. -/
def nameMove (grants : ℕ → Bool) (name : DeviceStringHead 100) : Move String :=
  (requestBytes grants name.length).needed.bind fun _ =>
    if min name.length BLOCK_STRING_DATA_LENGTH ≤ 100 then
      ((fromUtf8 (name.data.take name.length)).map Move.go).getD .halt
    else .stuck

theorem readStringPartsIn_zero (fuel : ℕ) (ptr : Option (DevicePointer .blockStringPart)) :
    (readStringPartsIn fuel 0 ptr : Prog Medium FsError (List UInt8)) = pure [] := by
  unfold readStringPartsIn
  exact if_pos rfl

theorem does_readName (name : DeviceStringHead 100) : Does (readStringHeadIn grants name) d (nameMove grants name) := by
  refine (does_orAbort _).bind fun _ => ?_
  by_cases hle : min name.length BLOCK_STRING_DATA_LENGTH ≤ 100
  · have hmin : min name.length BLOCK_STRING_DATA_LENGTH = name.length := by
      have : BLOCK_STRING_DATA_LENGTH = 4084 := by decide
      omega
    rw [if_pos hle]
    dsimp only
    rw [decide_eq_true hle, assert_true, pure_bind, hmin, Nat.sub_self, readStringPartsIn_zero, pure_bind,
      append_nil]
    cases fromUtf8 (name.data.take name.length) with
    | none => exact ⟨_, rfl⟩
    | some string => rfl
  · rw [if_neg hle]
    refine ⟨.panic, ?_⟩
    dsimp only
    rw [decide_eq_false hle, assert_false]
    rfl

/-- Reading the names of some entries. -/
def namesMove (grants : ℕ → Bool) : List FsDirectoryEntry → Move Unit
  | [] => .go ()
  | e :: es => (nameMove grants e.name).bind fun _ => namesMove grants es

namespace Directory

/-- `extendEntries` as a move. -/
def extendMove (grants : ℕ → Bool) : List DirectoryEntry → List FsDirectoryEntry → Move (List DirectoryEntry)
  | entries, [] => .go entries
  | entries, e :: es => (nameMove grants e.name).bind fun name =>
    extendMove grants (entries ++ [⟨name, e.fileId⟩]) es

theorem does_extendEntriesIn (entries : List DirectoryEntry) (es : List FsDirectoryEntry) :
    Does (extendEntriesIn grants entries es) d (extendMove grants entries es) := by
  induction es generalizing entries with
  | nil => rfl
  | cons e es ih =>
    rw [extendEntriesIn, extendMove, DirectoryEntry.loadIn, bind_assoc]
    exact (does_readName e.name).bind fun name => ih _

/-- How many entries there are is known before their names are read. -/
theorem map_length_extendMove (entries : List DirectoryEntry) (es : List FsDirectoryEntry) :
    (extendMove grants entries es).map List.length = (namesMove grants es).map fun _ => entries.length + es.length := by
  induction es generalizing entries with
  | nil => rfl
  | cons e es ih =>
    rw [extendMove, namesMove, Move.map_bind, Move.map_bind]
    congr
    ext name
    rw [ih, length_append, length_singleton, length_cons, add_assoc, add_comm 1]

/-- One round of reading the parts of a directory: the entries so far, and where to go on. -/
def entriesMove (grants : ℕ → Bool) (d : Medium) (expected : ℕ) :
    List DirectoryEntry × Option (DevicePointer .directoryPart) →
      Move (List DirectoryEntry × Option (DevicePointer .directoryPart))
  | (_, none) => .halt
  | (entries, some ptr) => (d.read ptr).bind fun part =>
    if entries.length + part.entries.len > expected then .halt
    else (extendMove grants entries part.entries.toList).map fun entries => (entries, part.next)

/-- The same as far as the loop depends on it: the number of entries so far. -/
def partMove (grants : ℕ → Bool) (d : Medium) (expected : ℕ) :
    ℕ × Option (DevicePointer .directoryPart) → Move (ℕ × Option (DevicePointer .directoryPart))
  | (_, none) => .halt
  | (count, some ptr) => (d.read ptr).bind fun part =>
    if count + part.entries.len > expected then .halt
    else (namesMove grants part.entries.toList).map fun _ => (count + part.entries.len, part.next)

theorem ends_entriesMove {expected : ℕ} (entries : List DirectoryEntry)
    (ptr : Option (DevicePointer .directoryPart)) : Ends (entriesMove grants d expected) (entries, ptr) ↔
      Ends (partMove grants d expected) (entries.length, ptr) := by
  refine ends_iff_of_view (Prod.map List.length id) fun s => ?_
  obtain ⟨entries, _ | ptr⟩ := s
  · rfl
  · rw [entriesMove, Move.map_bind]
    refine congrArg (d.read ptr).bind (funext fun part => ?_)
    by_cases hmany : entries.length + part.entries.len > expected
    · rw [if_pos hmany, if_pos hmany]
      rfl
    · rw [if_neg hmany, if_neg hmany, Move.map_map]
      calc (namesMove grants part.entries.toList).map (fun _ => (entries.length + part.entries.len, part.next))
          = ((namesMove grants part.entries.toList).map fun _ => entries.length + part.entries.toList.length).map
              (·, part.next) := by rw [Move.map_map]; rfl
        _ = ((extendMove grants entries part.entries.toList).map List.length).map (·, part.next) := by
          rw [map_length_extendMove]
        _ = _ := Move.map_map _ _ _

theorem loops_parts (expected : ℕ) :
    Loops (fun fuel s => Comes (readPartsIn grants expected fuel s.1 s.2) d) (entriesMove grants d expected) where
  succ fuel s := by
    obtain ⟨entries, _ | ptr⟩ := s
    · exact iff_of_true trivial trivial
    · rw [readPartsIn, (does_readPointer ptr d).mapErr.comes_bind, entriesMove, Move.holds_bind]
      refine Move.holds_congr fun part => ?_
      dsimp only
      by_cases hmany : entries.length + part.entries.len > expected
      · rw [if_pos hmany, if_pos hmany]
        exact iff_of_true trivial trivial
      · rw [if_neg hmany, if_neg hmany, (does_extendEntriesIn _ _).comes_bind, Move.holds_map]
  zero s h := by
    obtain ⟨entries, _ | ptr⟩ := s
    · rfl
    · exact False.elim h

/-- The head is one, and has too many entries or the parts end. -/
def ReadEnds (grants : ℕ → Bool) (d : Medium) (ptr : DevicePointer .directoryHead) : Prop :=
  (d.read ptr).Holds fun head => head.entryCount < head.entries.len ∨
    (requestBytes grants (head.entryCount * DIRECTORY_ENTRY_BYTES)).tried.Holds fun _ =>
      (namesMove grants head.entries.toList).Holds fun _ =>
        Ends (partMove grants d head.entryCount) (head.entries.len, head.next)

/-- Names come back together with the entries they are in. -/
theorem holds_extendMove {entries : List DirectoryEntry} {es : List FsDirectoryEntry} {P : ℕ → Prop} :
    ((extendMove grants entries es).Holds fun es => P es.length) ↔
      (namesMove grants es).Holds fun _ => P (entries.length + es.length) := by
  rw [← Move.holds_map (P := P), map_length_extendMove, Move.holds_map]

theorem comes_readIn (fuel : ℕ) (ptr : DevicePointer .directoryHead) :
    Comes (readIn grants fuel ptr) d ↔ (d.read ptr).Holds fun head => head.entryCount < head.entries.len ∨
      (requestBytes grants (head.entryCount * DIRECTORY_ENTRY_BYTES)).tried.Holds fun _ =>
        (extendMove grants [] head.entries.toList).Holds fun entries =>
          Comes (readPartsIn grants head.entryCount fuel entries head.next) d := by
  rw [readIn, (does_readPointer ptr d).mapErr.comes_bind]
  refine Move.holds_congr fun head => ?_
  dsimp only
  by_cases hmany : head.entryCount < head.entries.len
  · rw [if_pos hmany]
    exact iff_of_true trivial (.inl hmany)
  · rw [if_neg hmany, or_iff_right hmany, (does_orFsError _).comes_bind]
    refine Move.holds_congr fun _ => ?_
    rw [(does_extendEntriesIn _ _).comes_bind]
    refine Move.holds_congr fun entries => comes_bind_iff fun entries s' => ?_
    split
    · exact comes_throw _
    · exact comes_pure _

theorem total_readIn (ptr : DevicePointer .directoryHead) :
    Total (fun fuel => readIn grants fuel ptr) d ↔ ReadEnds grants d ptr := by
  simp only [Total, comes_readIn, enough_holds, enough_or]
  refine Move.holds_congr fun head => or_congr_right (Move.holds_congr fun _ => ?_)
  have hparts : ∀ entries, (Enough fun fuel => Comes (readPartsIn grants head.entryCount fuel entries head.next) d) ↔
        Ends (partMove grants d head.entryCount) (entries.length, head.next) := fun entries =>
    ((loops_parts head.entryCount).ends_iff (s := (entries, head.next))).trans (ends_entriesMove entries head.next)
  simp only [hparts]
  rw [holds_extendMove (P := fun n => Ends (partMove grants d head.entryCount) (n, head.next)), length_nil,
    zero_add]
  rfl
end Directory

/-! ## Block lists -/

namespace BlockList

/-- One round of reading a list: the groups so far, and where to go on. -/
def listMove (grants : ℕ → Bool) (d : Medium) :
    Vec BlockGroup × Option (DevicePointer .blockList) → Move (Vec BlockGroup × Option (DevicePointer .blockList))
  | (_, none) => .halt
  | (list, some ptr) => (d.read ptr).bind fun block =>
    (list.extend grants BLOCK_GROUP_BYTES block.blocks.toList).tried.map fun list => (list, block.next)

theorem loops_list : Loops (fun fuel s => Comes (readChainIn grants fuel s.1 s.2) d) (listMove grants d) where
  succ fuel s := by
    obtain ⟨list, _ | ptr⟩ := s
    · exact iff_of_true trivial trivial
    · rw [readChainIn, (does_readPointer ptr d).mapErr.comes_bind, listMove, Move.holds_bind]
      simp only [(does_orFsError _).comes_bind, Move.holds_map]
  zero s h := by
    obtain ⟨list, _ | ptr⟩ := s
    · rfl
    · exact False.elim h

/-- The group is in the head, or the chain of blocks ends. -/
def ReadEnds (grants : ℕ → Bool) (d : Medium) : BlockListHead → Prop
  | .single _ => True
  | .list ptr => Ends (listMove grants d) (Vec.new, some ptr)

theorem total_readIn (head : BlockListHead) :
    Total (fun fuel => readIn grants fuel head) d ↔ ReadEnds grants d head := by
  cases head with
  | single group => exact iff_of_true ⟨0, fun _ _ => trivial⟩ trivial
  | list ptr =>
    unfold Total readIn ReadEnds
    simp only [comes_bind_iff fun _ _ => comes_pure _]
    exact loops_list.ends_iff (s := (Vec.new, some ptr))
end BlockList

/-! ## Free lists -/

namespace BlockAllocator

/-- One round of loading the free list: the groups and blocks so far, and where to go on.  The groups have to be
consistent in the end. -/
def freeMove (grants : ℕ → Bool) (d : Medium) : Vec BlockGroup × Vec LBA × Option (DevicePointer .freeBlockGroups) →
      Move (Vec BlockGroup × Vec LBA × Option (DevicePointer .freeBlockGroups))
  | (free, _, none) =>
    match groupsConsistent free.elems with
    | .ok true => .halt
    | _ => .stuck
  | (free, selfOnDisk, some ptr) => (selfOnDisk.push grants LBA_BYTES ptr.lba).needed.bind fun selfOnDisk =>
    (d.read ptr).bind fun data => (free.pushAll grants BLOCK_GROUP_BYTES data.free.toList).needed.map fun free =>
      (free, selfOnDisk, data.next)

/-- What `load` does with the groups. -/
def checkLoaded (freeBlocks : DevicePointer .freeBlockGroups) (p : List BlockGroup × List LBA) :
    Prog Medium DeviceError BlockAllocator := do
  let blockAllocator := { free := p.1, onDisk := some freeBlocks, selfOnDisk := p.2, dirty := false : BlockAllocator }
  assert (← lift blockAllocator.checkConsistent)
  return blockAllocator

theorem comes_checkLoaded {ptr : DevicePointer .freeBlockGroups} {p : List BlockGroup × List LBA} :
    Comes (checkLoaded ptr p) d ↔ groupsConsistent p.1 = .ok true := by
  unfold Comes checkLoaded checkConsistent
  simp only [wp_bind, wp_lift, wp_assert, wp_pure, and_true]
  cases groupsConsistent p.1 with
  | ok b => simp
  | error φ => simp

theorem freeMove_none {free : Vec BlockGroup} {self : Vec LBA} :
    freeMove grants d (free, self, none) = if groupsConsistent free.elems = .ok true then .halt else .stuck := by
  rw [freeMove]
  split
  · next h => rw [if_pos h]
  · next h => rw [if_neg h]

theorem loops_free (freeBlocks : DevicePointer .freeBlockGroups) :
    Loops (fun fuel s => Comes (loadChainIn grants fuel s.1 s.2.1 s.2.2 >>= checkLoaded freeBlocks) d)
      (freeMove grants d) where
  succ fuel s := by
    obtain ⟨free, self, _ | ptr⟩ := s
    · rw [loadChainIn, pure_bind, comes_checkLoaded, freeMove_none]
      split <;> simp [*]
    · rw [loadChainIn, bind_assoc, (does_orAbort _).comes_bind, freeMove, Move.holds_bind]
      simp only [bind_assoc, (does_readPointer ptr d).comes_bind, (does_orAbort _).comes_bind, Move.holds_bind,
        Move.holds_map]
  zero s h := by
    obtain ⟨free, self, _ | ptr⟩ := s
    · rw [loadChainIn, pure_bind, comes_checkLoaded] at h
      rw [freeMove_none, if_pos h]
    · exact False.elim h

/-- The chain of blocks ends, with consistent groups unless by an error. -/
def LoadEnds (grants : ℕ → Bool) (d : Medium) (ptr : DevicePointer .freeBlockGroups) : Prop :=
  Ends (freeMove grants d) (Vec.new, Vec.new, some ptr)

theorem total_loadIn (ptr : DevicePointer .freeBlockGroups) :
    Total (fun fuel => loadIn grants fuel ptr) d ↔ LoadEnds grants d ptr :=
  (loops_free ptr).ends_iff (s := (Vec.new, Vec.new, some ptr))
end BlockAllocator

/-! ## All readers -/

/-- Lists without groups that go on at themselves, a directory said to have as many entries as a `u64` counts, and
a free list that has a block twice. -/
def hostile : Medium where
  look
    | .blockList, lba => some (.ok ⟨StaticVec.new, some ⟨lba⟩⟩)
    | .directoryHead, _ => some (.ok ⟨none, u64Size - 1, StaticVec.new, none⟩)
    | .freeBlockGroups, _ => some (.ok ⟨StaticVec.collect [.single LBA.ZERO, .single LBA.ZERO], none⟩)
    | _, _ => none

end WasabiOS
