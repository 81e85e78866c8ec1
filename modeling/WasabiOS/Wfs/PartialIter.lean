import WasabiOS.Machinery.Bytes
import WasabiOS.Wfs.MemStructs

/-!
# Wfs/PartialIter — the part of a block list a byte range lies in

`iter_partial` goes through the groups of a list, skips the bytes before the range, and cuts the group in which
the range ends.  It does not stop there: the next group is cut to no blocks, which panics.  And where the range
starts inside a block, it forgets that the bytes before it take room in the blocks it cuts off.
`partialCovers_iff` says for which lists and ranges it yields the range.
-/

open Machinery
namespace WasabiOS
open BlockGroup List Nat

/-! ## The iterator -/

/-- A [BlockGroup] with an additional byte offset and length -/
structure PartialBlockGroup where
  group : BlockGroup
  /-- byte offset into the group -/
  offset : ℕ
  /-- number of bytes to use within the group -/
  len : ℕ
  deriving DecidableEq, Repr

/-- Iterator over [PartialBlockGroup]s. -/
structure BlockListPartialIter where
  /-- The underlying group iterator -/
  groupIter : List BlockGroup
  /-- the number of bytes to skip in the underlying iterator -/
  skipBytes : ℕ
  /-- the total remaining number of bytes that should be included in the groups -/
  remainingBytes : ℕ

namespace BlockListPartialIter

/-- `expect` -/
def expect {α : Type} : Option α → Checked α
  | some a => .ok a
  | none => .error .panic

/-- The group without the blocks to skip, and the bytes to skip in its first block. -/
def skipIn (group : BlockGroup) (skipBytes : ℕ) : Checked (BlockGroup × ℕ) :=
  if 0 < skipBytes then do
    let group ← expect (← group.subgroup (skipBytes / BLOCK_SIZE))
    return (group, skipBytes % BLOCK_SIZE)
  else return (group, 0)

/-- The group without the blocks that are not needed, and the bytes to use of it. -/
def cutTo (group : BlockGroup) (remainingBytes : ℕ) : Checked (BlockGroup × ℕ) := do
  if remainingBytes < (← group.bytes BLOCK_SIZE) then
    let group ← expect (← group.withNewLength (blocksRequiredFor remainingBytes))
    return (group, remainingBytes)
  else return (group, ← group.bytes BLOCK_SIZE)

/-- The item for a group with bytes in the range. -/
def item (group : BlockGroup) (skipBytes remainingBytes : ℕ) : Checked PartialBlockGroup := do
  let (group, offset) ← skipIn group skipBytes
  let (group, len) ← cutTo group remainingBytes
  if len ≤ remainingBytes ∧ offset + len < u64Size ∧ offset + len ≤ (← group.bytes BLOCK_SIZE) then
    return ⟨group, offset, len⟩
  else .error .panic

/-- `next`, the loop over the groups that are skipped -/
def nextFrom : List BlockGroup → (skipBytes remainingBytes : ℕ) →
    Checked (Option (PartialBlockGroup × BlockListPartialIter))
  | [], _, _ => return none
  | group :: groups, skipBytes, remainingBytes => do
    let bytes ← group.bytes BLOCK_SIZE
    if bytes ≤ skipBytes then nextFrom groups (skipBytes - bytes) remainingBytes
    else
      let i ← item group skipBytes remainingBytes
      return some (i, ⟨groups, 0, remainingBytes - i.len⟩)

def next (it : BlockListPartialIter) : Checked (Option (PartialBlockGroup × BlockListPartialIter)) :=
  nextFrom it.groupIter it.skipBytes it.remainingBytes

/-- All items, one after the other. -/
def collect : (fuel : ℕ) → BlockListPartialIter → Checked (List PartialBlockGroup)
  | 0, _ => .error .diverge
  | fuel + 1, it => do
    match ← it.next with
    | none => return []
    | some (i, it) => return i :: (← collect fuel it)
end BlockListPartialIter

/-- Iterate over [PartialBlockGroup]s: every item takes a group at least. -/
def BlockList.iterPartial (l : BlockList) (byteOffset bytes : ℕ) : Checked (List PartialBlockGroup) :=
  BlockListPartialIter.collect (l.asSlice.length + 1) ⟨l.asSlice, byteOffset, bytes⟩

/-! ## Groups as lists of addresses -/

namespace BlockGroup

/-- Adding the whole count to the start of the group gives an address, so `end` does not panic. -/
def HasEnd (g : BlockGroup) : Prop := g.past < u64Size - 1

variable {g g' : BlockGroup} {k : ℕ}

theorem div_lt_count {o : ℕ} (h : o < g.size) : o / BLOCK_SIZE < g.count :=
  Nat.div_lt_of_lt_mul (lt_of_lt_of_eq h (mul_comm _ _))

theorem exists_endLba (h : g.HasEnd) : ∃ e : LBA, g.endLba = .ok e ∧ e.get + 1 = g.past := by
  have hpos := g.start_lt_past
  have hlt : g.past - 1 < u64Size - 1 := lt_of_le_of_lt (sub_le _ _) h
  exact ⟨⟨g.past - 1, hlt⟩, endLba_eq_ok.2 ⟨h, Nat.sub_add_cancel (by omega)⟩, Nat.sub_add_cancel (by omega)⟩

theorem exists_new {a b : LBA} {n : ℕ} (hpos : 0 < n) (hlast : b.get + 1 = a.get + n) :
    ∃ g : BlockGroup, new a b = .ok g ∧ g.start = a ∧ g.count = n := by
  have hlt := b.get_lt
  refine ⟨⟨a, n, hpos, by omega⟩, ?_, rfl, rfl⟩
  rw [new, if_pos (by omega), withCount_eq_ok]
  exact ⟨rfl, by show n = _; omega⟩

/-- The group without its first blocks. -/
theorem subgroup_eq (hk : k < g.count) (h : g.HasEnd) : ∃ g' : BlockGroup, g.subgroup k = .ok (some g') ∧
    g'.count = g.count - k ∧ g'.past = g.past ∧ g'.addresses = g.addresses.drop k := by
  obtain ⟨e, he, hlast⟩ := exists_endLba h
  have hpast : g.past = g.start.get + g.count := rfl
  have hend : g.past < u64Size - 1 := h
  have hadd := LBA.add_ok (a := g.start) (n := k) (by omega)
  obtain ⟨g', hnew, hstart, hcount⟩ := exists_new (a := ⟨g.start.get + k, by omega⟩) (b := e)
    (n := g.count - k) (by omega) (by show e.get + 1 = g.start.get + k + _; omega)
  have hget : g'.start.get = g.start.get + k := congrArg LBA.get hstart
  refine ⟨g', ?_, hcount, ?_, ?_⟩
  · rw [subgroup, if_pos hk, hadd, he, ok_bind, ok_bind, hnew]
    rfl
  · rw [past, hget, hcount, hpast]
    omega
  · rw [addresses, addresses, drop_range', hget, hcount, mul_one]

theorem hasEnd_of_subgroup {o : Option BlockGroup} (hk : k < g.count) (h : g.subgroup k = .ok o) : g.HasEnd := by
  rw [subgroup, if_pos hk] at h
  obtain ⟨_, -, h⟩ := bind_eq_ok.1 h
  obtain ⟨e, he, -⟩ := bind_eq_ok.1 h
  exact (endLba_eq_ok.1 he).1

/-- The group without its last blocks. -/
theorem withNewLength_eq (hpos : 0 < k) (hk : k ≤ g.count) (h : g.HasEnd) : ∃ g' : BlockGroup,
    g.withNewLength k = .ok (some g') ∧ g'.count = k ∧ g'.addresses = g.addresses.take k := by
  obtain ⟨e, he, hlast⟩ := exists_endLba h
  have hpast : g.past = g.start.get + g.count := rfl
  have hsub : e.sub (g.count - k) = .ok ⟨e.get - (g.count - k), lt_of_le_of_lt (sub_le _ _) e.get_lt⟩ :=
    LBA.sub_eq_ok.2 ⟨by omega, rfl⟩
  obtain ⟨g', hnew, hstart, hcount⟩ := exists_new (a := g.start)
    (b := ⟨e.get - (g.count - k), lt_of_le_of_lt (sub_le _ _) e.get_lt⟩) hpos
    (by show e.get - (g.count - k) + 1 = _; omega)
  refine ⟨g', ?_, hcount, ?_⟩
  · rw [withNewLength, if_pos hk, removeEnd, if_pos (by omega), he, ok_bind, hsub, ok_bind, hnew]
    rfl
  · have hsplit : range' g.start.get g.count = range' g.start.get k ++ range' (g.start.get + k) (g.count - k) := by
      rw [range'_append_1, Nat.add_sub_cancel' hk]
    rw [addresses, addresses, hstart, hcount, hsplit, take_left' length_range']

theorem hasEnd_of_withNewLength (h : g.withNewLength k = .ok (some g')) : 0 < k ∧ g.HasEnd := by
  unfold withNewLength at h
  split_ifs at h with hk
  unfold removeEnd at h
  split_ifs at h with hlt
  · obtain ⟨e, he, -⟩ := bind_eq_ok.1 h
    exact ⟨by omega, (endLba_eq_ok.1 he).1⟩
  · cases h
end BlockGroup

/-! ## One item -/

namespace BlockListPartialIter
open BlockGroup (totalSize totalSize_nil totalSize_cons blocksOf blocksOf_cons blocksOf_singleton)
variable {g g' : BlockGroup} {o n len off : ℕ} {i : PartialBlockGroup} {r : BlockGroup × ℕ}

theorem blocksRequiredFor_eq (n : ℕ) : blocksRequiredFor n = (n + 4095) / 4096 := by
  unfold blocksRequiredFor countsRequiredFor BLOCK_SIZE
  split_ifs <;> omega

theorem skipIn_eq (ho : o < g.size) (h : 0 < o → g.HasEnd) : ∃ g' : BlockGroup,
    skipIn g o = .ok (g', o % BLOCK_SIZE) ∧ g'.count = g.count - o / BLOCK_SIZE ∧ g'.past = g.past ∧
      g'.addresses = g.addresses.drop (o / BLOCK_SIZE) := by
  unfold skipIn
  split_ifs with hpos
  · obtain ⟨g', hsub, hcount, hpast, haddr⟩ := subgroup_eq (div_lt_count ho) (h hpos)
    exact ⟨g', by rw [hsub]; rfl, hcount, hpast, haddr⟩
  · obtain rfl : o = 0 := by omega
    exact ⟨g, rfl, rfl, rfl, rfl⟩

theorem hasEnd_of_skipIn (ho : o < g.size) (h : skipIn g o = .ok r) (hpos : 0 < o) :
    g.HasEnd := by
  unfold skipIn at h
  rw [if_pos hpos] at h
  obtain ⟨_, hsub, -⟩ := bind_eq_ok.1 h
  exact hasEnd_of_subgroup (div_lt_count ho) hsub

theorem cutTo_of_le (hsize : g.size < u64Size) (h : g.size ≤ n) : cutTo g n = .ok (g, g.size) := by
  rw [cutTo, bytes_of_lt hsize, ok_bind, if_neg (not_lt.2 h)]
  rfl

theorem cutTo_of_lt (hsize : g.size < u64Size) (hlt : n < g.size) (hpos : 0 < n) (h : g.HasEnd) :
    ∃ g' : BlockGroup, cutTo g n = .ok (g', n) ∧ g'.count = blocksRequiredFor n ∧
      g'.addresses = g.addresses.take (blocksRequiredFor n) := by
  have hlt' : n < g.count * 4096 := hlt
  obtain ⟨g', hnew, hcount, haddr⟩ := withNewLength_eq (g := g) (k := blocksRequiredFor n)
    (by rw [blocksRequiredFor_eq]; omega) (by rw [blocksRequiredFor_eq]; omega) h
  refine ⟨g', ?_, hcount, haddr⟩
  rw [cutTo, bytes_of_lt hsize, ok_bind, if_pos hlt, hnew]
  rfl

theorem hasEnd_of_cutTo (hsize : g.size < u64Size) (hlt : n < g.size) (h : cutTo g n = .ok r) : 0 < n ∧ g.HasEnd := by
  rw [cutTo, bytes_of_lt hsize, ok_bind, if_pos hlt] at h
  obtain ⟨o, hnew, h⟩ := bind_eq_ok.1 h
  cases o with
  | none => cases h
  | some g' =>
    obtain ⟨hpos, hend⟩ := hasEnd_of_withNewLength hnew
    rw [blocksRequiredFor_eq] at hpos
    exact ⟨by omega, hend⟩

/-- The bytes of the group from the block in which offset `o` lies on. -/
def bytesFrom (g : BlockGroup) (o : ℕ) : ℕ := g.size - o / BLOCK_SIZE * BLOCK_SIZE

theorem size_eq_bytesFrom (h : g'.count = g.count - o / BLOCK_SIZE) : g'.size = bytesFrom g o := by
  rw [bytesFrom, BlockGroup.size, BlockGroup.size, h, Nat.sub_mul]

theorem bytesFrom_of_aligned (h : o % BLOCK_SIZE = 0) : bytesFrom g o = g.size - o := by
  rw [bytesFrom, Nat.div_mul_cancel (dvd_of_mod_eq_zero h)]

/-- The range ends in the group, and the blocks that are kept have room for it. -/
theorem item_cut (hsize : g.size < u64Size) (ho : o < g.size) (hpos : 0 < n) (hlt : n < bytesFrom g o)
    (hend : g.HasEnd) (hroom : o % BLOCK_SIZE + n ≤ blocksRequiredFor n * BLOCK_SIZE) : ∃ g' : BlockGroup,
      item g o n = .ok ⟨g', o % BLOCK_SIZE, n⟩ ∧
        g'.addresses = (g.addresses.drop (o / BLOCK_SIZE)).take (blocksRequiredFor n) := by
  obtain ⟨g1, hskip, hcount, hpast, haddr⟩ := skipIn_eq ho fun _ => hend
  rw [← size_eq_bytesFrom hcount] at hlt
  have hsize1 : g1.size < u64Size := (mul_le_mul_right _ (hcount ▸ sub_le _ _)).trans_lt hsize
  have hend1 : g1.HasEnd := by rwa [BlockGroup.HasEnd, hpast]
  obtain ⟨g2, hcut, hcount2, haddr2⟩ := cutTo_of_lt hsize1 hlt hpos hend1
  have hsize2 : g2.size = blocksRequiredFor n * BLOCK_SIZE := congrArg (· * BLOCK_SIZE) hcount2
  have hle2 : g2.size ≤ g1.size := by
    have hlt' : n < g1.count * 4096 := hlt
    refine mul_le_mul_right _ ?_
    rw [hcount2, blocksRequiredFor_eq]
    omega
  refine ⟨g2, ?_, by rw [haddr2, haddr]⟩
  rw [item, hskip, ok_bind]
  simp only [hcut, ok_bind, bytes_of_lt (hle2.trans_lt hsize1)]
  rw [if_pos ⟨le_rfl, (hroom.trans_eq hsize2.symm).trans_lt (hle2.trans_lt hsize1), hroom.trans_eq hsize2.symm⟩]
  rfl

/-- The range goes on after the group, or ends with it. -/
theorem item_whole (hsize : g.size < u64Size) (ho : o < g.size) (hend : 0 < o → g.HasEnd)
    (hle : bytesFrom g o ≤ n) (haligned : o % BLOCK_SIZE = 0) : ∃ g' : BlockGroup,
      item g o n = .ok ⟨g', 0, bytesFrom g o⟩ ∧ g'.addresses = g.addresses.drop (o / BLOCK_SIZE) := by
  obtain ⟨g1, hskip, hcount, -, haddr⟩ := skipIn_eq ho hend
  have hsize1 : g1.size < u64Size := (mul_le_mul_right _ (hcount ▸ sub_le _ _)).trans_lt hsize
  have hfrom := size_eq_bytesFrom hcount
  refine ⟨g1, ?_, haddr⟩
  rw [item, hskip, ok_bind, haligned]
  simp only [cutTo_of_le hsize1 (hfrom.trans_le hle), ok_bind, bytes_of_lt hsize1, zero_add]
  rw [if_pos ⟨hfrom.trans_le hle, hsize1, le_rfl⟩, hfrom]
  rfl

/-- Where there is an item, one of these is the case. -/
theorem of_item (hsize : g.size < u64Size) (ho : o < g.size) (h : item g o n = .ok i) :
    (0 < o → g.HasEnd) ∧ (n < bytesFrom g o → 0 < n ∧ g.HasEnd ∧
      o % BLOCK_SIZE + n ≤ blocksRequiredFor n * BLOCK_SIZE) ∧ (bytesFrom g o ≤ n → o % BLOCK_SIZE = 0) := by
  obtain ⟨⟨g1, off⟩, hskip, h⟩ := bind_eq_ok.1 h
  have hend := hasEnd_of_skipIn ho hskip
  obtain ⟨g1', hskip', hcount, hpast, -⟩ := skipIn_eq ho hend
  rw [hskip] at hskip'
  obtain ⟨rfl, rfl⟩ := Prod.mk.inj (Except.ok.inj hskip')
  have hsize1 : g1.size < u64Size := (mul_le_mul_right _ (hcount ▸ sub_le _ _)).trans_lt hsize
  obtain ⟨⟨g2, len⟩, hcut, h⟩ := bind_eq_ok.1 h
  obtain ⟨bytes, hbytes, h⟩ := bind_eq_ok.1 h
  split_ifs at h with hif
  obtain ⟨-, -, hroom⟩ := hif
  rw [← size_eq_bytesFrom hcount]
  refine ⟨hend, fun hlt => ?_, fun hle => ?_⟩
  · obtain ⟨hpos, hend1⟩ := hasEnd_of_cutTo hsize1 hlt hcut
    obtain ⟨g2', hcut', hcount2, -⟩ := cutTo_of_lt hsize1 hlt hpos hend1
    rw [hcut] at hcut'
    obtain ⟨rfl, rfl⟩ := Prod.mk.inj (Except.ok.inj hcut')
    refine ⟨hpos, hpast.symm.trans_lt hend1, ?_⟩
    rwa [eq_size_of_bytes hbytes, BlockGroup.size, hcount2] at hroom
  · rw [cutTo_of_le hsize1 hle] at hcut
    obtain ⟨rfl, rfl⟩ := Prod.mk.inj (Except.ok.inj hcut)
    rw [eq_size_of_bytes hbytes] at hroom
    omega

/-! ## All items -/

/-- What `next` yields until it yields nothing. -/
def items : List BlockGroup → (skipBytes remainingBytes : ℕ) → Checked (List PartialBlockGroup)
  | [], _, _ => return []
  | group :: groups, skipBytes, remainingBytes => do
    let bytes ← group.bytes BLOCK_SIZE
    if bytes ≤ skipBytes then items groups (skipBytes - bytes) remainingBytes
    else
      let i ← item group skipBytes remainingBytes
      return i :: (← items groups 0 (remainingBytes - i.len))

theorem collect_eq {gs : List BlockGroup} {fuel : ℕ} (h : gs.length < fuel) :
    collect fuel ⟨gs, o, n⟩ = items gs o n := by
  induction gs generalizing fuel o n with
  | nil =>
    obtain ⟨fuel, rfl⟩ := exists_eq_succ_of_ne_zero (ne_zero_of_lt h)
    rfl
  | cons g gs ih =>
    obtain ⟨fuel, rfl⟩ := exists_eq_succ_of_ne_zero (ne_zero_of_lt h)
    rw [collect, items, next, nextFrom]
    cases g.bytes BLOCK_SIZE with
    | error f => rfl
    | ok b =>
      simp only [ok_bind]
      split_ifs with hskip
      · have hrest : collect (fuel + 1) ⟨gs, o - b, n⟩ = items gs (o - b) n := ih (lt_of_succ_lt h)
        rw [← hrest, collect, next]
      · cases item g o n with
        | error f => rfl
        | ok i =>
          simp only [ok_bind]
          have hrest : collect fuel ⟨gs, 0, n - i.len⟩ = items gs 0 (n - i.len) := ih (lt_of_succ_lt_succ h)
          rw [← hrest]
          rfl

/-- The bytes of an item, if `content` tells what is in each block. -/
def itemBytes (content : ℕ → List UInt8) (i : PartialBlockGroup) : List UInt8 :=
  ((i.group.addresses.flatMap content).drop i.offset).take i.len

/-- The items are the blocks in which the range lies, in order and each once, and their bytes are those of the
range. -/
structure Covers (gs : List BlockGroup) (o n : ℕ) (is : List PartialBlockGroup) : Prop where
  blocks : is.flatMap (fun i => i.group.addresses) =
    ((blocksOf gs).drop (o / BLOCK_SIZE)).take (blocksRequiredFor (o % BLOCK_SIZE + n))
  bytes : ∀ content : ℕ → List UInt8, (∀ a, (content a).length = BLOCK_SIZE) →
    is.flatMap (itemBytes content) = (((blocksOf gs).flatMap content).drop o).take n

/-- The lists and ranges the iterator gets right, group by group. -/
def Served : List BlockGroup → (o n : ℕ) → Prop
  | [], _, _ => True
  | g :: gs, o, n => g.size < u64Size ∧
      if g.size ≤ o then Served gs (o - g.size) n
      else 0 < n ∧ (0 < o → g.HasEnd) ∧
        if n < bytesFrom g o then
          g.HasEnd ∧ o % BLOCK_SIZE + n ≤ blocksRequiredFor n * BLOCK_SIZE ∧ gs = []
        else o % BLOCK_SIZE = 0 ∧ Served gs 0 (n - bytesFrom g o)

variable {gs : List BlockGroup} {is : List PartialBlockGroup}

theorem served_of_skip (h : g.size ≤ o) : Served (g :: gs) o n ↔ g.size < u64Size ∧ Served gs (o - g.size) n := by
  rw [Served, if_pos h]

theorem served_of_cut (ho : o < g.size) (hlt : n < bytesFrom g o) : Served (g :: gs) o n ↔
    g.size < u64Size ∧ 0 < n ∧ g.HasEnd ∧ o % BLOCK_SIZE + n ≤ blocksRequiredFor n * BLOCK_SIZE ∧ gs = [] := by
  rw [Served, if_neg (not_le.2 ho), if_pos hlt]
  refine and_congr_right fun _ => and_congr_right fun _ => and_iff_right_of_imp ?_
  exact fun h _ => h.1

theorem served_of_whole (ho : o < g.size) (hle : bytesFrom g o ≤ n) : Served (g :: gs) o n ↔
    g.size < u64Size ∧ (0 < o → g.HasEnd) ∧ o % BLOCK_SIZE = 0 ∧ Served gs 0 (n - bytesFrom g o) := by
  have hpos : 0 < n := by
    refine lt_of_lt_of_le (Nat.sub_pos_of_lt ?_) hle
    exact (div_mul_le_self o BLOCK_SIZE).trans_lt ho
  rw [Served, if_neg (not_le.2 ho), if_neg (not_lt.2 hle)]
  exact and_congr_right fun _ => and_iff_right hpos

/-- Once nothing is left to yield, no group may follow. -/
theorem items_zero (h : items gs 0 0 = .ok is) : gs = [] := by
  cases gs with
  | nil => rfl
  | cons g gs =>
    obtain ⟨b, hb, h⟩ := bind_eq_ok.1 h
    have hsize := lt_of_bytes hb
    rw [eq_size_of_bytes hb, if_neg (not_le.2 g.size_pos)] at h
    obtain ⟨i, hi, -⟩ := bind_eq_ok.1 h
    obtain ⟨-, hcut, -⟩ := of_item hsize g.size_pos hi
    exact absurd (hcut ((size_pos g).trans_eq (by simp [bytesFrom]))).1 (lt_irrefl 0)

theorem served_of_items (h : items gs o n = .ok is) : Served gs o n := by
  induction gs generalizing o n is with
  | nil => trivial
  | cons g gs ih =>
    obtain ⟨b, hb, h⟩ := bind_eq_ok.1 h
    have hsize := lt_of_bytes hb
    rw [eq_size_of_bytes hb] at h
    rcases lt_or_ge o g.size with ho | ho
    · rw [if_neg (not_le.2 ho)] at h
      obtain ⟨i, hi, h⟩ := bind_eq_ok.1 h
      obtain ⟨is', his, -⟩ := bind_eq_ok.1 h
      obtain ⟨hend, hcut, hwhole⟩ := of_item hsize ho hi
      rcases lt_or_ge n (bytesFrom g o) with hlt | hle
      · obtain ⟨hpos, hend, hroom⟩ := hcut hlt
        obtain ⟨g', hi', -⟩ := item_cut hsize ho hpos hlt hend hroom
        obtain rfl := Except.ok.inj (hi.symm.trans hi')
        rw [Nat.sub_self] at his
        exact (served_of_cut ho hlt).2 ⟨hsize, hpos, hend, hroom, items_zero his⟩
      · obtain ⟨g', hi', -⟩ := item_whole hsize ho hend hle (hwhole hle)
        obtain rfl := Except.ok.inj (hi.symm.trans hi')
        exact (served_of_whole ho hle).2 ⟨hsize, hend, hwhole hle, ih his⟩
    · rw [if_pos ho] at h
      exact (served_of_skip ho).2 ⟨hsize, ih h⟩

variable {content : ℕ → List UInt8} (hcontent : ∀ a, (content a).length = BLOCK_SIZE)
include hcontent in
theorem length_groupBytes : (g.addresses.flatMap content).length = g.size := by
  rw [length_flatMap_of_length hcontent, length_addresses, BlockGroup.size]

theorem Covers.nil : Covers [] 0 0 [] := by
  constructor
  · rw [blocksOf, flatMap_nil, flatMap_nil, drop_nil, take_nil]
  · intro content _
    rw [flatMap_nil, take_zero]

/-- The groups before the range do not matter. -/
theorem Covers.skip (ho : g.size ≤ o) (h : Covers gs (o - g.size) n is) : Covers (g :: gs) o n is := by
  have ho' : g.count * 4096 ≤ o := ho
  have hdiv : (o - g.size) / BLOCK_SIZE = o / BLOCK_SIZE - g.count := by
    unfold BlockGroup.size BLOCK_SIZE
    omega
  have hmod : (o - g.size) % BLOCK_SIZE = o % BLOCK_SIZE := by
    unfold BlockGroup.size BLOCK_SIZE
    omega
  have hle : g.addresses.length ≤ o / BLOCK_SIZE := by
    rw [length_addresses]
    unfold BLOCK_SIZE
    omega
  constructor
  · rw [h.blocks, hdiv, hmod, blocksOf_cons, drop_append, drop_of_length_le hle, nil_append, length_addresses]
  · intro content hcontent
    have hbefore : (g.addresses.flatMap content).drop o = [] :=
      drop_of_length_le ((length_groupBytes hcontent).trans_le ho)
    rw [h.bytes content hcontent, blocksOf_cons, flatMap_append, drop_append, hbefore, nil_append,
      length_groupBytes hcontent]

/-- The range lies in one group. -/
theorem Covers.cut (hroom : o % BLOCK_SIZE + n ≤ blocksRequiredFor n * BLOCK_SIZE)
    (hg : g'.addresses = (g.addresses.drop (o / BLOCK_SIZE)).take (blocksRequiredFor n)) :
    Covers [g] o n [⟨g', o % BLOCK_SIZE, n⟩] := by
  have hreq : blocksRequiredFor (o % BLOCK_SIZE + n) = blocksRequiredFor n := by
    rw [blocksRequiredFor_eq] at hroom
    unfold BLOCK_SIZE at hroom
    rw [blocksRequiredFor_eq, blocksRequiredFor_eq]
    unfold BLOCK_SIZE
    omega
  constructor
  · rw [flatMap_singleton, blocksOf_singleton, hg, hreq]
  · intro content hcontent
    have hmin : min n (blocksRequiredFor n * BLOCK_SIZE - o % BLOCK_SIZE) = n := min_eq_left (by omega)
    rw [flatMap_singleton, blocksOf_singleton, itemBytes, hg, ← take_flatMap_of_length hcontent,
      ← drop_flatMap_of_length hcontent, drop_take, take_take, drop_drop, div_add_mod', hmin]

/-- A range that is cut where a group ends. -/
theorem Covers.whole (ho : o < g.size) (haligned : o % BLOCK_SIZE = 0) (hle : bytesFrom g o ≤ n)
    (hg : g'.addresses = g.addresses.drop (o / BLOCK_SIZE)) (h : Covers gs 0 (n - bytesFrom g o) is) :
    Covers (g :: gs) o n (⟨g', 0, bytesFrom g o⟩ :: is) := by
  have ho' : o < g.count * 4096 := ho
  have hfrom : bytesFrom g o = (g.count - o / BLOCK_SIZE) * BLOCK_SIZE := by
    rw [bytesFrom, BlockGroup.size, Nat.sub_mul]
  have hkept : (g.addresses.drop (o / BLOCK_SIZE)).length = g.count - o / BLOCK_SIZE := by
    rw [length_drop, length_addresses]
  have hzero : o / BLOCK_SIZE - g.count = 0 := by
    unfold BLOCK_SIZE
    omega
  constructor
  · have hreq : blocksRequiredFor n =
        g.count - o / BLOCK_SIZE + blocksRequiredFor (0 % BLOCK_SIZE + (n - bytesFrom g o)) := by
      rw [hfrom] at hle ⊢
      rw [blocksRequiredFor_eq, blocksRequiredFor_eq, zero_mod, zero_add]
      unfold BLOCK_SIZE at hle ⊢
      omega
    have htake : (g.addresses.drop (o / BLOCK_SIZE)).take (blocksRequiredFor n) = g.addresses.drop (o / BLOCK_SIZE) :=
      take_of_length_le (by rw [hkept, hreq]; exact le_add_right _ _)
    rw [flatMap_cons, h.blocks, hg, blocksOf_cons, drop_append, length_addresses, hzero,
      haligned, zero_add n, take_append, hkept, htake, hreq, Nat.add_sub_cancel_left, Nat.zero_div]
  · intro content hcontent
    have hbytes : (g'.addresses.flatMap content).length = bytesFrom g o := by
      rw [length_flatMap_of_length hcontent, hg, hkept, hfrom]
    have hdrop : (g.addresses.flatMap content).drop o = g'.addresses.flatMap content := by
      rw [hg, ← drop_flatMap_of_length hcontent, Nat.div_mul_cancel (dvd_of_mod_eq_zero haligned)]
    rw [flatMap_cons, h.bytes content hcontent, blocksOf_cons, flatMap_append, drop_append,
      length_groupBytes hcontent, Nat.sub_eq_zero_of_le ho.le, hdrop, take_append, hbytes, itemBytes,
      drop_zero, drop_zero, take_of_length_le hbytes.le,
      take_of_length_le (hbytes.trans_le hle)]

/-- **Where the iterator is right, it yields the range.** -/
theorem items_of_served (hfit : o + n ≤ totalSize gs) (h : Served gs o n) :
    ∃ is, items gs o n = .ok is ∧ Covers gs o n is := by
  induction gs generalizing o n with
  | nil =>
    obtain ⟨rfl, rfl⟩ : o = 0 ∧ n = 0 := Nat.add_eq_zero_iff.1 (le_zero.1 hfit)
    exact ⟨[], rfl, .nil⟩
  | cons g gs ih =>
    rw [totalSize_cons] at hfit
    rcases lt_or_ge o g.size with ho | ho
    · rcases lt_or_ge n (bytesFrom g o) with hlt | hle
      · obtain ⟨hsize, hpos, hend, hroom, rfl⟩ := (served_of_cut ho hlt).1 h
        obtain ⟨g', hi, hg⟩ := item_cut hsize ho hpos hlt hend hroom
        refine ⟨[⟨g', o % BLOCK_SIZE, n⟩], ?_, .cut hroom hg⟩
        rw [items, bytes_of_lt hsize, ok_bind, if_neg (not_le.2 ho), hi]
        rfl
      · obtain ⟨hsize, hend, haligned, hrest⟩ := (served_of_whole ho hle).1 h
        obtain ⟨g', hi, hg⟩ := item_whole hsize ho hend hle haligned
        have hfrom := bytesFrom_of_aligned (g := g) haligned
        obtain ⟨is, his, hcovers⟩ := ih (o := 0) (n := n - bytesFrom g o) (by omega) hrest
        refine ⟨_, ?_, Covers.whole ho haligned hle hg hcovers⟩
        rw [items, bytes_of_lt hsize, ok_bind, if_neg (not_le.2 ho), hi, ok_bind, his]
        rfl
    · obtain ⟨hsize, hrest⟩ := (served_of_skip ho).1 h
      obtain ⟨is, his, hcovers⟩ := ih (o := o - g.size) (by omega) hrest
      refine ⟨is, ?_, hcovers.skip ho⟩
      rw [items, bytes_of_lt hsize, ok_bind, if_pos ho, his]

/-! ## Which lists and ranges -/

/-- The lists and ranges the iterator gets right. -/
structure PartialFits (gs : List BlockGroup) (o n : ℕ) : Prop where
  /-- the number of bytes of a group is a `u64` -/
  sizes : ∀ g ∈ gs, g.size < u64Size
  /-- the range ends in the last group -/
  ends : ∀ init last, gs = init ++ [last] → totalSize init < o + n
  /-- the range starts with a block, or it starts in the last group and has room in as many blocks as a range of
  its length needs that does -/
  aligned : o % BLOCK_SIZE = 0 ∨ o % BLOCK_SIZE + n ≤ blocksRequiredFor n * BLOCK_SIZE ∧
    ∀ init last, gs = init ++ [last] → totalSize init ≤ o
  /-- a group of which only a part is in the range does not end with the last address -/
  cuts : ∀ init g rest, gs = init ++ g :: rest →
    totalSize init < o ∧ o < totalSize init + g.size ∨ totalSize init < o + n ∧ o + n < totalSize init + g.size → g.HasEnd

theorem exists_eq_append_last (h : gs ≠ []) : ∃ init last, gs = init ++ [last] :=
  ⟨_, _, (dropLast_append_getLast h).symm⟩

theorem fits_skip (hn : 0 < n) (ho : g.size ≤ o) :
    PartialFits (g :: gs) o n ↔ g.size < u64Size ∧ PartialFits gs (o - g.size) n := by
  have hmod : (o - g.size) % BLOCK_SIZE = o % BLOCK_SIZE := by
    have ho' : g.count * 4096 ≤ o := ho
    unfold BlockGroup.size BLOCK_SIZE
    omega
  constructor
  · intro h
    refine ⟨h.sizes g mem_cons_self, fun x hx => h.sizes x (mem_cons_of_mem g hx), ?_, ?_, ?_⟩
    · rintro init last rfl
      have hends := h.ends (g :: init) last rfl
      rw [totalSize_cons] at hends
      omega
    · rw [hmod]
      refine h.aligned.imp_right (And.imp_right fun hstart => ?_)
      rintro init last rfl
      have hle := hstart (g :: init) last rfl
      rw [totalSize_cons] at hle
      omega
    · rintro init x rest rfl hcut
      refine h.cuts (g :: init) x rest rfl ?_
      rw [totalSize_cons]
      omega
  · rintro ⟨hsize, h⟩
    refine ⟨forall_mem_cons.2 ⟨hsize, h.sizes⟩, ?_, ?_, ?_⟩
    · intro init last heq
      obtain ⟨rfl, -⟩ | ⟨init, rfl, rfl⟩ := cons_eq_append_iff.1 heq
      · rw [totalSize_nil]
        omega
      · have hends := h.ends init last rfl
        rw [totalSize_cons]
        omega
    · rw [← hmod]
      refine h.aligned.imp_right (And.imp_right fun hstart => ?_)
      intro init last heq
      obtain ⟨rfl, -⟩ | ⟨init, rfl, rfl⟩ := cons_eq_append_iff.1 heq
      · rw [totalSize_nil]
        omega
      · have hle := hstart init last rfl
        rw [totalSize_cons]
        omega
    · intro init x rest heq hcut
      obtain ⟨rfl, hx⟩ | ⟨init, rfl, rfl⟩ := cons_eq_append_iff.1 heq
      · obtain ⟨rfl, -⟩ := List.cons.inj hx
        rw [totalSize_nil] at hcut
        omega
      · refine h.cuts init x rest rfl ?_
        rw [totalSize_cons] at hcut
        omega

/-- What is cut off to have room for a range lies in the group. -/
theorem add_le_size (ho : o < g.size) (hlt : n < bytesFrom g o)
    (h : o % BLOCK_SIZE = 0 ∨ o % BLOCK_SIZE + n ≤ blocksRequiredFor n * BLOCK_SIZE) : o + n ≤ g.size := by
  have ho' : o < g.count * 4096 := ho
  unfold bytesFrom at hlt
  rw [blocksRequiredFor_eq] at h
  unfold BlockGroup.size BLOCK_SIZE at *
  omega

theorem fits_cut (hn : o = 0 ∨ 0 < n) (ho : o < g.size) (hlt : n < bytesFrom g o) : PartialFits (g :: gs) o n ↔
    g.size < u64Size ∧ 0 < n ∧ g.HasEnd ∧ o % BLOCK_SIZE + n ≤ blocksRequiredFor n * BLOCK_SIZE ∧ gs = [] := by
  constructor
  · intro h
    have hle := add_le_size ho hlt (h.aligned.imp_right And.left)
    have hnil : gs = [] := by
      by_contra hne
      obtain ⟨init, last, rfl⟩ := exists_eq_append_last hne
      have hends := h.ends (g :: init) last rfl
      rw [totalSize_cons] at hends
      omega
    subst hnil
    have hends := h.ends [] g rfl
    have hcuts := h.cuts [] g [] rfl
    rw [totalSize_nil] at hends hcuts
    refine ⟨h.sizes g mem_cons_self, by omega, hcuts ?_, ?_, rfl⟩
    · rcases Nat.eq_zero_or_pos (o % BLOCK_SIZE) with hmod | hmod
      · rw [bytesFrom_of_aligned hmod] at hlt
        omega
      · exact .inl ⟨hmod.trans_le (mod_le _ _), by omega⟩
    · rcases h.aligned with hmod | ⟨hroom, -⟩
      · rw [hmod, blocksRequiredFor_eq]
        unfold BLOCK_SIZE
        omega
      · exact hroom
  · rintro ⟨hsize, hpos, hend, hroom, rfl⟩
    have hsingle : ∀ {init rest : List BlockGroup} {x : BlockGroup}, [g] = init ++ x :: rest → init = [] ∧ x = g := by
      intro init rest x heq
      obtain ⟨rfl, hx⟩ | ⟨init, rfl, hnil⟩ := cons_eq_append_iff.1 heq
      · exact ⟨rfl, (List.cons.inj hx).1⟩
      · exact absurd hnil.symm (append_ne_nil_of_right_ne_nil _ (cons_ne_nil _ _))
    refine ⟨?_, ?_, .inr ⟨hroom, ?_⟩, ?_⟩
    · intro x hx
      rwa [mem_singleton.1 hx]
    · intro init last heq
      rw [(hsingle heq).1, totalSize_nil]
      omega
    · intro init last heq
      rw [(hsingle heq).1, totalSize_nil]
      exact zero_le o
    · intro init x rest heq _
      rwa [(hsingle heq).2]

theorem fits_whole (hfit : o + n ≤ totalSize (g :: gs)) (ho : o < g.size) (hle : bytesFrom g o ≤ n) :
    PartialFits (g :: gs) o n ↔
      g.size < u64Size ∧ (0 < o → g.HasEnd) ∧ o % BLOCK_SIZE = 0 ∧ PartialFits gs 0 (n - bytesFrom g o) := by
  rw [totalSize_cons] at hfit
  constructor
  · intro h
    have hmod : o % BLOCK_SIZE = 0 := by
      rcases h.aligned with hmod | ⟨-, hstart⟩
      · exact hmod
      -- the range starts in the first group and goes on after it, so this is not the last one
      rcases eq_nil_or_concat' gs with rfl | ⟨init, last, rfl⟩
      · rw [totalSize_nil] at hfit
        unfold bytesFrom at hle
        have hdiv := div_add_mod' o BLOCK_SIZE
        omega
      · have hle := hstart (g :: init) last rfl
        rw [totalSize_cons] at hle
        omega
    have hfrom := bytesFrom_of_aligned (g := g) hmod
    refine ⟨h.sizes g mem_cons_self, fun hpos => h.cuts [] g gs rfl ?_, hmod,
      fun x hx => h.sizes x (mem_cons_of_mem g hx), ?_, .inl (zero_mod _), ?_⟩
    · rw [totalSize_nil]
      omega
    · rintro init last rfl
      have hends := h.ends (g :: init) last rfl
      rw [totalSize_cons] at hends
      omega
    · rintro init x rest rfl hcut
      refine h.cuts (g :: init) x rest rfl ?_
      rw [totalSize_cons]
      omega
  · rintro ⟨hsize, hend, hmod, h⟩
    have hfrom := bytesFrom_of_aligned (g := g) hmod
    refine ⟨forall_mem_cons.2 ⟨hsize, h.sizes⟩, ?_, .inl hmod, ?_⟩
    · intro init last heq
      obtain ⟨rfl, -⟩ | ⟨init, rfl, rfl⟩ := cons_eq_append_iff.1 heq
      · rw [totalSize_nil]
        omega
      · have hends := h.ends init last rfl
        rw [totalSize_cons]
        omega
    · intro init x rest heq hcut
      obtain ⟨rfl, hx⟩ | ⟨init, rfl, rfl⟩ := cons_eq_append_iff.1 heq
      · obtain ⟨rfl, -⟩ := List.cons.inj hx
        rw [totalSize_nil] at hcut
        exact hend (by omega)
      · refine h.cuts init x rest rfl ?_
        rw [totalSize_cons] at hcut
        omega

theorem served_iff (hn : o = 0 ∨ 0 < n) (hfit : o + n ≤ totalSize gs) : Served gs o n ↔ PartialFits gs o n := by
  induction gs generalizing o n with
  | nil =>
    obtain ⟨rfl, rfl⟩ : o = 0 ∧ n = 0 := Nat.add_eq_zero_iff.1 (le_zero.1 hfit)
    refine iff_of_true trivial ⟨forall_mem_nil _, ?_, .inl (zero_mod _), ?_⟩
    · exact fun init last heq => absurd heq.symm (append_ne_nil_of_right_ne_nil _ (cons_ne_nil _ _))
    · exact fun init g rest heq => absurd heq.symm (append_ne_nil_of_right_ne_nil _ (cons_ne_nil _ _))
  | cons g gs ih =>
    have hsum := totalSize_cons g gs
    rcases lt_or_ge o g.size with ho | ho
    · rcases lt_or_ge n (bytesFrom g o) with hlt | hle
      · rw [served_of_cut ho hlt, fits_cut hn ho hlt]
      · rw [served_of_whole ho hle, fits_whole hfit ho hle]
        refine and_congr_right fun _ => and_congr_right fun _ => and_congr_right fun hmod => ih (.inl rfl) ?_
        have hfrom := bytesFrom_of_aligned (g := g) hmod
        omega
    · have hpos : 0 < n := hn.resolve_left (by have := g.size_pos; omega)
      rw [served_of_skip ho, fits_skip hpos ho]
      exact and_congr_right fun _ => ih (.inr hpos) (by omega)
end BlockListPartialIter

open BlockListPartialIter BlockGroup

/-- `iter_partial` does not panic, and what it yields are the blocks with bytes of the range, in order and each
once, and the bytes of the range. -/
def BlockList.PartialCovers (l : BlockList) (byteOffset bytes : ℕ) : Prop :=
  ∃ is, l.iterPartial byteOffset bytes = .ok is ∧ is.flatMap (fun i => i.group.addresses) =
      ((blocksOf l.asSlice).take ((byteOffset + bytes - 1) / BLOCK_SIZE + 1)).drop (byteOffset / BLOCK_SIZE) ∧
    ∀ content : ℕ → List UInt8, (∀ a, (content a).length = BLOCK_SIZE) →
      is.flatMap (itemBytes content) = (((blocksOf l.asSlice).flatMap content).drop byteOffset).take bytes

/-- **For which lists and ranges `iter_partial` yields the range.** -/
theorem BlockList.partialCovers_iff {l : BlockList} {byteOffset bytes : ℕ} (hbytes : 1 ≤ bytes)
    (hfit : byteOffset + bytes ≤ totalSize l.asSlice) :
    l.PartialCovers byteOffset bytes ↔ PartialFits l.asSlice byteOffset bytes := by
  rw [← served_iff (.inr hbytes) hfit, PartialCovers, iterPartial, collect_eq (lt_succ_self _)]
  constructor
  · rintro ⟨is, his, -⟩
    exact served_of_items his
  · intro h
    obtain ⟨is, his, hcovers⟩ := items_of_served hfit h
    refine ⟨is, his, ?_, hcovers.bytes⟩
    rw [hcovers.blocks, drop_take]
    congr 1
    rw [blocksRequiredFor_eq]
    unfold BLOCK_SIZE
    omega

theorem two_lt_u64Size : 2 < u64Size := by decide

/-- The first two blocks of a device. -/
def twoBlocks : BlockList := .single ⟨LBA.ZERO, 2, Nat.two_pos, two_lt_u64Size⟩

/-- A block of bytes from the second byte on lies in two blocks; the iterator keeps one for it. -/
theorem not_partialCovers_twoBlocks : 1 + 4096 ≤ totalSize twoBlocks.asSlice ∧ ¬ twoBlocks.PartialCovers 1 4096 := by
  refine ⟨by decide, ?_⟩
  rintro ⟨is, his, -⟩
  have hpanic : twoBlocks.iterPartial 1 4096 = .error .panic := rfl
  rw [hpanic] at his
  cases his

/-- A range that starts with a block. -/
theorem partialCovers_twoBlocks : twoBlocks.PartialCovers 4096 100 := by
  have hend : past ⟨LBA.ZERO, 2, Nat.two_pos, two_lt_u64Size⟩ < u64Size - 1 := by decide
  have hserved : Served twoBlocks.asSlice 4096 100 :=
    (served_of_cut (by decide) (by decide)).2 ⟨by decide, by decide, hend, by decide, rfl⟩
  exact (BlockList.partialCovers_iff (by decide) (by decide)).2
    ((served_iff (.inr (by decide)) (by decide)).1 hserved)
end WasabiOS
