import Mathlib.Data.List.GetD
import WasabiOS.Wfs.AllocatorDevice
import WasabiOS.Wfs.DeviceString

/-!
# Wfs/StringRoundTrip — which strings are read back

The parts of a string are a chain of blocks, each filled up with zeros (`HoldsParts`); reading follows the
chain for as many bytes as are missing.

A string in blocks of its own is always read back (`writeString_spec`).  A string in a head of capacity `N`
is not: the writer puts as many bytes into the head as fit into a block, whatever `N` is, and continues in
the parts at byte `N`.  `headRoundTrips_iff` says for which capacities and strings that comes out right.
-/

open Machinery Prog
namespace WasabiOS
open BlockAllocator List Nat
variable {bytes : List UInt8} {N k : ℕ}

/-- The bytes, filled up with zeros. -/
def padded (N : ℕ) (bytes : List UInt8) : List UInt8 := bytes ++ List.replicate (N - bytes.length) 0

theorem length_padded (h : bytes.length ≤ N) : (padded N bytes).length = N := by
  rw [padded, length_append, length_replicate, Nat.add_sub_cancel' h]

theorem padded_eq_self (h : N ≤ bytes.length) : padded N bytes = bytes := by
  rw [padded, Nat.sub_eq_zero_of_le h, replicate_zero, append_nil]

theorem take_padded (bytes : List UInt8) : (padded N bytes).take bytes.length = bytes := take_left

/-- Bytes that do not fit into one block fill it. -/
theorem padded_append {n : ℕ} (bytes : List UInt8) :
    padded n (bytes.take n) ++ padded k (bytes.drop n) = padded (n + k) bytes := by
  rcases le_total n bytes.length with h | h
  · have hfull : n ≤ (bytes.take n).length := by rw [length_take, min_eq_left h]
    rw [padded_eq_self hfull, padded, padded, ← append_assoc, take_append_drop, length_drop]
    congr 2
    omega
  · rw [take_of_length_le h, drop_of_length_le h, padded, padded, padded, nil_append,
      append_assoc, ← replicate_add, length_nil]
    congr 2
    omega

theorem copiedInto_of_le (h : bytes.length ≤ N) :
    copiedInto N bytes = .ok ⟨padded N bytes, length_padded h⟩ := dif_pos h

/-- The number of part blocks the writer asks for. -/
def partBlockCount (bytes : List UInt8) : ℕ :=
  countsRequiredFor BLOCK_STRING_PART_DATA_LENGTH (bytes.length - BLOCK_STRING_DATA_LENGTH)

theorem partBlockCount_of_le (h : bytes.length ≤ BLOCK_STRING_DATA_LENGTH) : partBlockCount bytes = 0 := by
  rw [partBlockCount, Nat.sub_eq_zero_of_le h, countsRequiredFor_zero]

theorem one_le_partBlockCount (h : BLOCK_STRING_DATA_LENGTH < bytes.length) : 1 ≤ partBlockCount bytes := by
  rw [partBlockCount, countsRequiredFor_of_pos (by decide) (Nat.sub_pos_of_lt h)]
  exact le_add_left 1 _

/-- The parts have room for all that is not in the head of a block. -/
theorem le_partBlockCount_mul (bytes : List UInt8) :
    bytes.length - BLOCK_STRING_DATA_LENGTH ≤ partBlockCount bytes * BLOCK_STRING_PART_DATA_LENGTH :=
  le_countsRequiredFor_mul (by decide)

theorem partBlockCount_le (bytes : List UInt8) : partBlockCount bytes ≤ bytes.length :=
  (countsRequiredFor_le (by decide) (Nat.le_mul_of_pos_right _ (by decide))).trans (sub_le _ _)

/-! ## The chain of parts -/

/-- The blocks, chained from the pointer, hold the bytes. -/
def HoldsParts (blocks : LBA → Block) : List LBA → List UInt8 → Option (DevicePointer .blockStringPart) → Prop
  | [], bytes, ptr => bytes = [] ∧ ptr = none
  | lba :: lbas, bytes, ptr => bytes ≠ [] ∧ ptr = some ⟨lba⟩ ∧ ∃ part : BlockStringPart,
      blocks lba = .blockStringPart part ∧
      part.data = padded BLOCK_STRING_PART_DATA_LENGTH (bytes.take BLOCK_STRING_PART_DATA_LENGTH) ∧
      HoldsParts blocks lbas (bytes.drop BLOCK_STRING_PART_DATA_LENGTH) part.next

section Disk
variable [BlockLayout] {K : ℕ}

/-- **A chain is read back with the zeros it is filled up with**, as far as bytes are asked for. -/
theorem HoldsParts.read {d : Disk Block} : ∀ {lbas : List LBA} {bytes : List UInt8}
    {ptr : Option (DevicePointer .blockStringPart)} {fuel remaining : ℕ}, HoldsParts d.blocks lbas bytes ptr →
      remaining ≤ lbas.length * BLOCK_STRING_PART_DATA_LENGTH → lbas.length ≤ fuel →
        readStringParts fuel remaining ptr d =
          .ok ((padded (lbas.length * BLOCK_STRING_PART_DATA_LENGTH) bytes).take remaining) d
  | [], bytes, ptr, fuel, remaining, _, hle, _ => by
    rw [length_nil, zero_mul] at hle
    obtain rfl : remaining = 0 := le_zero.1 hle
    rw [readStringParts_zero]
    rfl
  | lba :: lbas, bytes, ptr, fuel, remaining, h, hle, hfuel => by
    obtain ⟨-, rfl, part, hblock, hdata, hrest⟩ := h
    obtain ⟨fuel, rfl⟩ : ∃ n, fuel = n + 1 := ⟨fuel - 1, by rw [length_cons] at hfuel; omega⟩
    rw [length_cons] at hle hfuel ⊢
    rcases Nat.eq_zero_or_pos remaining with rfl | hpos
    · rw [readStringParts_zero]
      rfl
    · have hptr : readPointer (k := .blockStringPart) ⟨lba⟩ d = .ok part d := readPointer_disk (congrArg _ hblock)
      have hread : readStringParts fuel (remaining - min remaining BLOCK_STRING_PART_DATA_LENGTH) part.next d = _ :=
        hrest.read (by rw [add_mul] at hle; omega) (by omega)
      rw [readStringParts, if_neg hpos.ne']
      simp only [bind_apply, mapErr_ok hptr, andThen_ok, hread]
      have hsplit := padded_append (n := BLOCK_STRING_PART_DATA_LENGTH)
        (k := lbas.length * BLOCK_STRING_PART_DATA_LENGTH) bytes
      have hlen : (padded BLOCK_STRING_PART_DATA_LENGTH (bytes.take BLOCK_STRING_PART_DATA_LENGTH)).length =
          BLOCK_STRING_PART_DATA_LENGTH := length_padded (length_take_le _ _)
      have htake : (padded BLOCK_STRING_PART_DATA_LENGTH (bytes.take BLOCK_STRING_PART_DATA_LENGTH)).take
          (min remaining BLOCK_STRING_PART_DATA_LENGTH) =
            (padded BLOCK_STRING_PART_DATA_LENGTH (bytes.take BLOCK_STRING_PART_DATA_LENGTH)).take remaining := by
        rw [← take_take, take_of_length_le hlen.le]
      have hmin : remaining - min remaining BLOCK_STRING_PART_DATA_LENGTH =
          remaining - BLOCK_STRING_PART_DATA_LENGTH := by omega
      rw [add_mul, one_mul, add_comm (lbas.length * _), ← hsplit, take_append, hlen, hdata, htake, hmin]
      rfl

variable {bytes : List UInt8} {lbas : List LBA} {d : Disk Block}

/-- **Writing the parts** into as many blocks as they need. -/
theorem writePartBlocks_spec : ∀ {bytes : List UInt8} {lbas : List LBA} {d : Disk Block},
    lbas.length = countsRequiredFor BLOCK_STRING_PART_DATA_LENGTH bytes.length →
      ∃ ws, writePartBlocks bytes lbas d = .ok () (d.writeAll ws) ∧ ws.map Prod.fst = lbas ∧
        ∀ {blocks : LBA → Block}, (∀ w ∈ ws, blocks w.1 = w.2) →
          HoldsParts blocks lbas bytes (lbas.head?.map DevicePointer.mk)
  | [], lbas, d, hlen => by
    obtain rfl : lbas = [] := length_eq_zero_iff.1 hlen
    exact ⟨[], by rw [writePartBlocks]; rfl, rfl, fun _ => ⟨rfl, rfl⟩⟩
  | byte :: bytes, lbas, d, hlen => by
    rw [countsRequiredFor_of_pos (k := (byte :: bytes).length) (by decide) (succ_pos _)] at hlen
    obtain ⟨lba, rest, rfl⟩ := exists_cons_of_length_eq_add_one hlen
    have hlen' : rest.length = countsRequiredFor BLOCK_STRING_PART_DATA_LENGTH
        ((byte :: bytes).drop BLOCK_STRING_PART_DATA_LENGTH).length := by
      rw [length_drop]
      exact succ_injective hlen
    have hfits : ((byte :: bytes).take BLOCK_STRING_PART_DATA_LENGTH).length ≤ BLOCK_STRING_PART_DATA_LENGTH :=
      length_take_le _ _
    let part : BlockStringPart := ⟨_, length_padded hfits, rest.head?.map DevicePointer.mk⟩
    obtain ⟨ws, hws, hfst, hholds⟩ := writePartBlocks_spec (d := d.write lba (.blockStringPart part)) hlen'
    refine ⟨(lba, .blockStringPart part) :: ws, ?_, by rw [map_cons, hfst], fun {blocks} hblocks => ?_⟩
    · rw [writePartBlocks, copiedInto_of_le hfits, lift_ok, pure_bind]
      exact hws
    · obtain ⟨hblock, hblocks⟩ := forall_mem_cons.1 hblocks
      exact ⟨cons_ne_nil _ _, rfl, part, hblock, rfl, hholds hblocks⟩
termination_by bytes => bytes.length
decreasing_by
  rw [length_drop, length_cons]
  have hpos : 0 < BLOCK_STRING_PART_DATA_LENGTH := by decide
  omega

/-- With too few or too many blocks, writing the parts panics. -/
theorem writePartBlocks_of_ne : ∀ {lbas : List LBA} {bytes : List UInt8} {d : Disk Block},
    lbas.length ≠ countsRequiredFor BLOCK_STRING_PART_DATA_LENGTH bytes.length →
      writePartBlocks bytes lbas d = .fault .panic
  | [], [], d, hne => absurd rfl hne
  | lba :: lbas, [], d, _ => by
    rw [writePartBlocks]
    rfl
  | [], byte :: bytes, d, _ => by
    rw [writePartBlocks]
    rfl
  | lba :: lbas, byte :: bytes, d, hne => by
    rw [countsRequiredFor_of_pos (k := (byte :: bytes).length) (by decide) (succ_pos _)] at hne
    have hfits : ((byte :: bytes).take BLOCK_STRING_PART_DATA_LENGTH).length ≤ BLOCK_STRING_PART_DATA_LENGTH :=
      length_take_le _ _
    rw [writePartBlocks, copiedInto_of_le hfits, lift_ok, pure_bind]
    refine writePartBlocks_of_ne fun hlen => hne ?_
    rw [length_drop] at hlen
    exact congrArg (· + 1) hlen

theorem writeStringParts_spec (hlen : lbas.length = countsRequiredFor BLOCK_STRING_PART_DATA_LENGTH bytes.length)
    (hne : lbas ≠ []) : ∃ ptr ws, writeStringParts bytes lbas d = .ok ptr (d.writeAll ws) ∧ ws.map Prod.fst = lbas ∧
        ∀ {blocks : LBA → Block}, (∀ w ∈ ws, blocks w.1 = w.2) → HoldsParts blocks lbas bytes (some ptr) := by
  obtain ⟨lba, rest, rfl⟩ := exists_cons_of_ne_nil hne
  obtain ⟨ws, hws, hfst, hholds⟩ := writePartBlocks_spec (d := d) hlen
  refine ⟨⟨lba⟩, ws, ?_, hfst, hholds⟩
  rw [writeStringParts, head?_cons, expect_some, pure_bind, bind_apply, hws]
  rfl

/-! ## A head -/

/-- What the writer leaves of a string in a head of capacity `N` and in parts: it copies the bytes that fit
into a block, and continues at byte `N`. -/
structure HeadWritten {N : ℕ} (blocks : LBA → Block) (head : DeviceStringHead N) (string : String)
    (lbas : List LBA) : Prop where
  length : head.length = (asBytes string).length
  fits : min (asBytes string).length BLOCK_STRING_DATA_LENGTH ≤ N
  data : head.data = padded N ((asBytes string).take BLOCK_STRING_DATA_LENGTH)
  parts : HoldsParts blocks lbas ((asBytes string).drop N) head.next
  count : lbas.length = partBlockCount (asBytes string)

section Head
variable {N : ℕ} {head : DeviceStringHead N} {string : String}

theorem readStringHead_eq_ok {rest : List UInt8} (hN : min head.length BLOCK_STRING_DATA_LENGTH ≤ N)
    (hrest : readStringParts head.length (head.length - min head.length BLOCK_STRING_DATA_LENGTH) head.next d =
      .ok rest d) : readStringHead head d = .ok string d ↔
        head.data.take (min head.length BLOCK_STRING_DATA_LENGTH) ++ rest = asBytes string := by
  rw [← fromUtf8_eq_some]
  unfold readStringHead
  rw [decide_eq_true hN, assert_true, pure_bind, bind_apply, hrest, andThen_ok]
  cases fromUtf8 (head.data.take (min head.length BLOCK_STRING_DATA_LENGTH) ++ rest) with
  | none => exact iff_of_false (fun h => by cases h) fun h => by cases h
  | some s => exact ⟨fun h => by cases h; rfl, fun h => by cases h; rfl⟩

/-- **What is read from a head**: the reader expects the parts to continue where the head of a block ends. -/
theorem HeadWritten.read_iff (h : HeadWritten d.blocks head string lbas) : readStringHead head d = .ok string d ↔
      (padded (lbas.length * BLOCK_STRING_PART_DATA_LENGTH) ((asBytes string).drop N)).take
        ((asBytes string).length - BLOCK_STRING_DATA_LENGTH) = (asBytes string).drop BLOCK_STRING_DATA_LENGTH := by
  obtain ⟨length, hlength⟩ : ∃ n, n = (asBytes string).length := ⟨_, rfl⟩
  have hsub : head.length - min head.length BLOCK_STRING_DATA_LENGTH = length - BLOCK_STRING_DATA_LENGTH := by
    rw [h.length, hlength]
    omega
  have hle : length - BLOCK_STRING_DATA_LENGTH ≤ lbas.length * BLOCK_STRING_PART_DATA_LENGTH := by
    rw [h.count, hlength]
    exact le_partBlockCount_mul _
  have hfuel : lbas.length ≤ head.length := by
    rw [h.count, h.length]
    exact partBlockCount_le _
  have hread := h.parts.read hle hfuel
  rw [← hsub] at hread
  have hhead : head.data.take (min head.length BLOCK_STRING_DATA_LENGTH) =
      (asBytes string).take BLOCK_STRING_DATA_LENGTH := by
    have hmin : min head.length BLOCK_STRING_DATA_LENGTH = ((asBytes string).take BLOCK_STRING_DATA_LENGTH).length := by
      rw [length_take, h.length, min_comm]
    rw [hmin, h.data, take_padded]
  rw [readStringHead_eq_ok (h.length ▸ h.fits) hread, hhead, hsub, ← hlength]
  exact ⟨fun heq => append_cancel_left (heq.trans (take_append_drop _ _).symm),
    fun heq => by rw [heq, take_append_drop]⟩

/-- If both agree on where the parts begin, the string is read back. -/
theorem HeadWritten.read (h : HeadWritten d.blocks head string lbas)
    (hN : (asBytes string).drop N = (asBytes string).drop BLOCK_STRING_DATA_LENGTH) :
    readStringHead head d = .ok string d := by
  rw [h.read_iff, hN]
  have hlen : ((asBytes string).drop BLOCK_STRING_DATA_LENGTH).length =
      (asBytes string).length - BLOCK_STRING_DATA_LENGTH := length_drop
  rw [← hlen, take_padded]
end Head

/-! ## A string in a head -/

variable {string : String} {a a' : BlockAllocator}

/-- The string is read back from the head, which has the first `N` bytes, and the parts have the rest. -/
def HeadStored {N : ℕ} (string : String) (head : DeviceStringHead N) (d : Disk Block) : Prop :=
  readStringHead head d = .ok string d ∧ head.data = padded N ((asBytes string).take N) ∧
    ∃ lbas, HoldsParts d.blocks lbas ((asBytes string).drop N) head.next

/-- Writing the string into a head of capacity `N` does not panic, in any file system whose allocator is
consistent, and what is written is read back. -/
def HeadRoundTrips (N : ℕ) (string : String) : Prop :=
  ∀ (a : BlockAllocator) (d : Disk Block), BlockAllocator.Separated a.free → BlockAllocator.Addressable a.free →
    (writeStringHead N string).wp (fun head s => HeadStored string head s.2) (fun _ _ => True) (a, d)

/-- The capacities and strings for which the writer and the reader agree: everything is in the head; or the
head is that of a block; or the head is larger, and either there is no allocation of as many blocks as the
writer asks for, or it is the right number and all that would be shifted are zeros. -/
def HeadFits (N : ℕ) (bytes : List UInt8) : Prop :=
  bytes.length ≤ N ∧ bytes.length ≤ BLOCK_STRING_DATA_LENGTH ∨ N = BLOCK_STRING_DATA_LENGTH ∨
    BLOCK_STRING_DATA_LENGTH < N ∧ N ≤ bytes.length ∧ ((partBlockCount bytes).isPowerOfTwo →
        countsRequiredFor BLOCK_STRING_PART_DATA_LENGTH (bytes.length - N) = partBlockCount bytes ∧
        ∀ b ∈ bytes.drop BLOCK_STRING_DATA_LENGTH, b = 0)

omit [BlockLayout] in
theorem getD_padded {i : ℕ} : (padded K bytes).getD i 0 = bytes.getD i 0 := by
  rw [padded, getD_eq_getElem?_getD, getD_eq_getElem?_getD]
  rcases lt_or_ge i bytes.length with hlt | hge
  · rw [getElem?_append_left hlt]
  · rw [getElem?_append_right hge, getElem?_eq_none hge, getElem?_replicate]
    split_ifs <;> rfl

omit [BlockLayout] in
/-- Bytes that are the same when they are shifted towards the front and filled up with zeros are zeros. -/
theorem zeros_of_shift {t : List UInt8} (hk : 0 < k)
    (h : (padded K (t.drop k)).take t.length = t) : ∀ b ∈ t, b = 0 := by
  have hstep : ∀ i, t.getD i 0 = t.getD (i + k) 0 := by
    intro i
    rcases lt_or_ge i t.length with hlt | hge
    · have hdrop : (t.drop k).getD i 0 = t.getD (i + k) 0 := by
        rw [getD_eq_getElem?_getD, getD_eq_getElem?_getD, getElem?_drop, add_comm]
      nth_rewrite 1 [← h]
      rw [getD_eq_getElem?_getD, getElem?_take_of_lt hlt, ← getD_eq_getElem?_getD, getD_padded, hdrop]
    · rw [getD_eq_default _ _ hge, getD_eq_default _ _ (hge.trans (le_add_right i k))]
  have hsteps : ∀ m i, t.getD i 0 = t.getD (i + m * k) 0 := by
    intro m
    induction m with
    | zero => intro i; rw [zero_mul, add_zero]
    | succ m ih => intro i; rw [hstep, ih, add_mul, one_mul, add_assoc, add_comm k]
  intro b hb
  obtain ⟨i, hi, rfl⟩ := getElem_of_mem hb
  have hfar : t.length ≤ i + t.length * k := (Nat.le_mul_of_pos_right _ hk).trans le_add_self
  rw [← getD_eq_getElem t 0 hi, hsteps t.length i, getD_eq_default _ _ hfar]

section Head
variable {N : ℕ} {head : DeviceStringHead N} {s : BlockAllocator × Disk Block}

/-- A head that ends where the one of a block does. -/
theorem HeadWritten.stored (h : HeadWritten d.blocks head string lbas)
    (hdrop : (asBytes string).drop N = (asBytes string).drop BLOCK_STRING_DATA_LENGTH)
    (htake : (asBytes string).take N = (asBytes string).take BLOCK_STRING_DATA_LENGTH) :
    HeadStored string head d :=
  ⟨h.read hdrop, htake ▸ h.data, lbas, h.parts⟩

/-- A larger head. -/
theorem HeadWritten.stored_iff (h : HeadWritten d.blocks head string lbas) (hlt : BLOCK_STRING_DATA_LENGTH < N)
    (hle : N ≤ (asBytes string).length) :
    HeadStored string head d ↔ ∀ b ∈ (asBytes string).drop BLOCK_STRING_DATA_LENGTH, b = 0 := by
  have hdrop : (asBytes string).drop N =
      ((asBytes string).drop BLOCK_STRING_DATA_LENGTH).drop (N - BLOCK_STRING_DATA_LENGTH) := by
    rw [drop_drop, Nat.add_sub_cancel' hlt.le]
  have hlen : (asBytes string).length - BLOCK_STRING_DATA_LENGTH =
      ((asBytes string).drop BLOCK_STRING_DATA_LENGTH).length := length_drop.symm
  have hread := h.read_iff
  rw [hdrop, hlen] at hread
  constructor
  · rintro ⟨hok, -⟩
    exact zeros_of_shift (Nat.sub_pos_of_lt hlt) (hread.1 hok)
  · intro hzero
    have htail := eq_replicate_of_mem hzero
    have hroom : ((asBytes string).drop BLOCK_STRING_DATA_LENGTH).length ≤
        lbas.length * BLOCK_STRING_PART_DATA_LENGTH := by
      rw [h.count, ← hlen]
      exact le_partBlockCount_mul _
    refine ⟨hread.2 ?_, ?_, lbas, h.parts⟩
    · generalize (asBytes string).drop BLOCK_STRING_DATA_LENGTH = t at htail hroom ⊢
      rw [htail, drop_replicate, padded, ← replicate_add, length_replicate, length_replicate,
        take_replicate, min_eq_left (by omega)]
    · have htake : ((asBytes string).take N).take BLOCK_STRING_DATA_LENGTH =
          (asBytes string).take BLOCK_STRING_DATA_LENGTH := by rw [take_take, min_eq_left hlt.le]
      have hrest : ((asBytes string).take N).drop BLOCK_STRING_DATA_LENGTH =
          List.replicate (N - BLOCK_STRING_DATA_LENGTH) 0 := by
        rw [drop_take, htail, take_replicate, length_drop, min_eq_left (by omega)]
      have hfull : N ≤ ((asBytes string).take N).length := by rw [length_take, min_eq_left hle]
      have hhead : ((asBytes string).take BLOCK_STRING_DATA_LENGTH).length = BLOCK_STRING_DATA_LENGTH := by
        rw [length_take, min_eq_left (hlt.le.trans hle)]
      rw [h.data, padded_eq_self hfull, padded, hhead, ← hrest, ← htake, take_append_drop]

/-- A string that fits its head and that of a block. -/
theorem writeStringHead_short (hN : (asBytes string).length ≤ N)
    (hlen : (asBytes string).length ≤ BLOCK_STRING_DATA_LENGTH) :
    ∃ head : DeviceStringHead N, writeStringHead N string s = .ok head s ∧ HeadWritten s.2.blocks head string [] := by
  have hmin : (asBytes string).take (min (asBytes string).length BLOCK_STRING_DATA_LENGTH) = asBytes string := by
    rw [min_eq_left hlen, take_length]
  have hbound : BLOCK_STRING_DATA_LENGTH < 2 ^ 32 := by decide
  refine ⟨⟨(asBytes string).length, _, length_padded hN, none⟩, ?_, rfl, (min_le_left _ _).trans hN, ?_,
    ⟨drop_of_length_le hN, rfl⟩, ?_⟩
  · rw [writeStringHead, if_neg (not_le.2 (hlen.trans_lt hbound)), hmin, copiedInto_of_le hN, lift_ok,
      pure_bind, if_pos (Nat.sub_eq_zero_of_le hlen)]
    rfl
  · rw [take_of_length_le hlen]
  · rw [partBlockCount_of_le hlen]
    rfl

/-- The bytes for the head do not fit into it. -/
theorem writeStringHead_of_lt (hlong : (asBytes string).length < 2 ^ 32)
    (hN : N < min (asBytes string).length BLOCK_STRING_DATA_LENGTH) :
    writeStringHead N string s = .fault .panic := by
  have hcopy : N < ((asBytes string).take (min (asBytes string).length BLOCK_STRING_DATA_LENGTH)).length := by
    rw [length_take]
    omega
  rw [writeStringHead, if_neg (not_le.2 hlong), copiedInto, dif_neg (not_le.2 hcopy)]
  rfl

/-- A string with parts, into a head that is large enough for what a block holds. -/
theorem writeStringHead_long (hlong : (asBytes string).length < 2 ^ 32) (hN : BLOCK_STRING_DATA_LENGTH ≤ N)
    (hlen : BLOCK_STRING_DATA_LENGTH < (asBytes string).length) :
    ∃ data : { data : List UInt8 // data.length = N },
      data.val = padded N ((asBytes string).take BLOCK_STRING_DATA_LENGTH) ∧
      (writeStringHead N string : Prog (BlockAllocator × Disk Block) FsError _) = do
        assert (N ≤ (asBytes string).length)
        let blocks ← onAllocator (allocate (partBlockCount (asBytes string)))
        let lbas ← lift blocks.blockIter
        let next ← onDevice (writeStringParts ((asBytes string).drop N) lbas)
        return ⟨(asBytes string).length, data, data.property, some next⟩ := by
  have hfit : ((asBytes string).take BLOCK_STRING_DATA_LENGTH).length ≤ N := (length_take_le _ _).trans hN
  refine ⟨⟨_, length_padded hfit⟩, rfl, ?_⟩
  rw [writeStringHead, if_neg (not_le.2 hlong), min_eq_right hlen.le, copiedInto_of_le hfit, lift_ok,
    pure_bind, if_neg (sub_ne_zero_of_lt hlen), partBlockCount]

section Long
variable {list : BlockGroupList} (hlong : (asBytes string).length < 2 ^ 32) (hN : BLOCK_STRING_DATA_LENGTH ≤ N)
  (hlen : BLOCK_STRING_DATA_LENGTH < (asBytes string).length)

include hlong hN hlen

theorem writeStringHead_of_short (hlt : (asBytes string).length < N) : writeStringHead N string s = .fault .panic := by
  obtain ⟨data, -, heq⟩ := writeStringHead_long hlong hN hlen
  rw [heq, decide_eq_false (not_le.2 hlt)]
  rfl

variable (hle : N ≤ (asBytes string).length)
include hle

theorem writeStringHead_of_err {e : FsError} (halloc : allocate (partBlockCount (asBytes string)) a = .err e a') :
    writeStringHead N string (a, d) = .err e (a', d) := by
  obtain ⟨data, -, heq⟩ := writeStringHead_long hlong hN hlen
  have hallocate : onAllocator (allocate _) (a, d) = .err e (a', d) := zoom_err halloc
  rw [heq, decide_eq_true hle, assert_true, pure_bind, bind_apply, hallocate]
  rfl

variable (halloc : allocate (partBlockCount (asBytes string)) a = .ok list a') (hiter : list.blockIter = .ok lbas)
include halloc hiter

theorem writeStringHead_of_allocate : ∃ data : { data : List UInt8 // data.length = N },
      data.val = padded N ((asBytes string).take BLOCK_STRING_DATA_LENGTH) ∧
      writeStringHead N string (a, d) = (do
        let next ← onDevice (writeStringParts ((asBytes string).drop N) lbas)
        return ⟨(asBytes string).length, data, data.property, some next⟩ :
          Prog (BlockAllocator × Disk Block) FsError (DeviceStringHead N)) (a', d) := by
  obtain ⟨data, hdata, heq⟩ := writeStringHead_long hlong hN hlen
  have hallocate : onAllocator (allocate _) (a, d) = .ok list (a', d) := zoom_ok halloc
  refine ⟨data, hdata, ?_⟩
  rw [heq, decide_eq_true hle, assert_true, pure_bind, bind_apply, hallocate, andThen_ok, hiter, lift_ok, pure_bind]

omit [BlockLayout] hlong hN hle in
theorem blocks_for_parts : (partBlockCount (asBytes string)).isPowerOfTwo ∧ lbas.Nodup ∧
      lbas.length = partBlockCount (asBytes string) ∧ lbas ≠ [] := by
  have hcount := one_le_partBlockCount hlen
  obtain ⟨hpow, hnodup, hlbas⟩ := blocks_of_allocate hcount halloc hiter
  exact ⟨hpow, hnodup, hlbas, ne_nil_of_length_pos (hlbas ▸ hcount)⟩

theorem writeStringHead_written
    (hcount : lbas.length = countsRequiredFor BLOCK_STRING_PART_DATA_LENGTH ((asBytes string).drop N).length) :
    ∃ head ws, writeStringHead N string (a, d) = .ok head (a', d.writeAll ws) ∧
      HeadWritten (d.writeAll ws).blocks head string lbas := by
  obtain ⟨-, hnodup, hlbas, hne⟩ := blocks_for_parts hlen halloc hiter
  obtain ⟨data, hdata, heq⟩ := writeStringHead_of_allocate (d := d) hlong hN hlen hle halloc hiter
  obtain ⟨ptr, ws, hparts, hfst, hholds⟩ := writeStringParts_spec (d := d) hcount hne
  have hnext : onDevice (writeStringParts ((asBytes string).drop N) lbas) (a', d) = .ok ptr (a', d.writeAll ws) :=
    zoom_ok hparts
  refine ⟨⟨(asBytes string).length, data, data.property, some ptr⟩, ws, ?_, rfl, (min_le_right _ _).trans hN, hdata,
    hholds fun w hw => Disk.writeAll_blocks_of_mem (hfst ▸ hnodup) hw, hlbas⟩
  rw [heq, bind_apply, hnext]
  rfl

theorem writeStringHead_miscounted
    (hcount : lbas.length ≠ countsRequiredFor BLOCK_STRING_PART_DATA_LENGTH ((asBytes string).drop N).length) :
    writeStringHead N string (a, d) = .fault .panic := by
  obtain ⟨-, -, -, hne⟩ := blocks_for_parts hlen halloc hiter
  obtain ⟨lba, rest, rfl⟩ := exists_cons_of_ne_nil hne
  obtain ⟨data, -, heq⟩ := writeStringHead_of_allocate (d := d) hlong hN hlen hle halloc hiter
  have hparts : writeStringParts ((asBytes string).drop N) (lba :: rest) d = .fault .panic := by
    rw [writeStringParts, head?_cons, expect_some, pure_bind, bind_apply, writePartBlocks_of_ne hcount]
    rfl
  have hnext : onDevice (writeStringParts ((asBytes string).drop N) (lba :: rest)) (a', d) = .fault .panic :=
    zoom_fault hparts
  rw [heq, bind_apply, hnext]
  rfl
end Long

/-- A string with parts makes the round trip if it does so once it has its blocks. -/
theorem headRoundTrips_of_written (hlong : (asBytes string).length < 2 ^ 32) (hN : BLOCK_STRING_DATA_LENGTH ≤ N)
    (hlen : BLOCK_STRING_DATA_LENGTH < (asBytes string).length) (hle : N ≤ (asBytes string).length)
    (h : (partBlockCount (asBytes string)).isPowerOfTwo →
      countsRequiredFor BLOCK_STRING_PART_DATA_LENGTH ((asBytes string).length - N) = partBlockCount (asBytes string) ∧
        ∀ {d : Disk Block} {head : DeviceStringHead N} {lbas : List LBA}, HeadWritten d.blocks head string lbas →
          HeadStored string head d) : HeadRoundTrips N string := by
  intro a d hc hv
  obtain ⟨list, a', lbas, halloc, hiter⟩ | ⟨e, halloc⟩ := allocate_total (one_le_partBlockCount hlen) hc hv
  · obtain ⟨hpow, -, hlbas, -⟩ := blocks_for_parts hlen halloc hiter
    obtain ⟨hequal, hstored⟩ := h hpow
    have hparts : lbas.length = countsRequiredFor BLOCK_STRING_PART_DATA_LENGTH ((asBytes string).drop N).length := by
      rw [hlbas, length_drop, hequal]
    obtain ⟨head, ws, hok, hwritten⟩ := writeStringHead_written (d := d) hlong hN hlen hle halloc hiter hparts
    exact (wp_of_ok hok).2 (hstored hwritten)
  · exact (wp_of_err (writeStringHead_of_err hlong hN hlen hle halloc)).2 trivial

/-- Where the writer panics on every file system, nothing makes the round trip. -/
theorem not_headRoundTrips_of_panic
    (h : ∀ s : BlockAllocator × Disk Block, writeStringHead N string s = .fault .panic) :
    ¬ HeadRoundTrips N string := by
  intro hround
  have hwp := hround ⟨[], none, [], false⟩ ⟨0, fun _ => .data [], []⟩ IntervalList.separated_nil
    fun g hg => absurd hg not_mem_nil
  unfold Prog.wp at hwp
  rw [h] at hwp
  exact hwp

/-- With a larger head and the blocks that the writer asks for, only zeros make the round trip. -/
theorem HeadRoundTrips.zeros (h : HeadRoundTrips N string) (hlong : (asBytes string).length < 2 ^ 32)
    (hlt : BLOCK_STRING_DATA_LENGTH < N) (hle : N ≤ (asBytes string).length)
    (hpow : (partBlockCount (asBytes string)).isPowerOfTwo) :
    countsRequiredFor BLOCK_STRING_PART_DATA_LENGTH ((asBytes string).length - N) = partBlockCount (asBytes string) ∧
      ∀ b ∈ (asBytes string).drop BLOCK_STRING_DATA_LENGTH, b = 0 := by
  have hlen := hlt.trans_le hle
  have hsize : partBlockCount (asBytes string) < u64Size := ((partBlockCount_le _).trans_lt hlong).trans (by decide)
  obtain ⟨a, list, a', lbas, hc, hv, halloc, hiter⟩ := exists_allocate hpow hsize
  obtain ⟨-, -, hlbas, -⟩ := blocks_for_parts hlen halloc hiter
  have hwp := h a ⟨0, fun _ => .data [], []⟩ hc hv
  by_cases hcount : lbas.length = countsRequiredFor BLOCK_STRING_PART_DATA_LENGTH ((asBytes string).drop N).length
  · obtain ⟨head, ws, hok, hwritten⟩ := writeStringHead_written hlong hlt.le hlen hle halloc hiter hcount
    rw [length_drop] at hcount
    exact ⟨hcount.symm.trans hlbas, (hwritten.stored_iff hlt hle).1 ((wp_of_ok hok).1 hwp)⟩
  · unfold Prog.wp at hwp
    rw [writeStringHead_miscounted hlong hlt.le hlen hle halloc hiter hcount] at hwp
    exact hwp.elim

/-- **When a string makes the round trip through a head.** -/
theorem headRoundTrips_iff (hlong : (asBytes string).length < 2 ^ 32) :
    HeadRoundTrips N string ↔ HeadFits N (asBytes string) := by
  constructor
  · intro h
    have hmin : min (asBytes string).length BLOCK_STRING_DATA_LENGTH ≤ N :=
      not_lt.1 fun hlt => not_headRoundTrips_of_panic (fun _ => writeStringHead_of_lt hlong hlt) h
    rcases lt_or_ge BLOCK_STRING_DATA_LENGTH (asBytes string).length with hlen | hlen
    · rw [min_eq_right hlen.le] at hmin
      rcases hmin.eq_or_lt with heq | hlt
      · exact .inr (.inl heq.symm)
      · have hle : N ≤ (asBytes string).length := not_lt.1 fun hlt' =>
          not_headRoundTrips_of_panic (fun _ => writeStringHead_of_short hlong hlt.le hlen hlt') h
        exact .inr (.inr ⟨hlt, hle, h.zeros hlong hlt hle⟩)
    · exact .inl ⟨min_eq_left hlen ▸ hmin, hlen⟩
  · have hshort (hN : (asBytes string).length ≤ N)
        (hlen : (asBytes string).length ≤ BLOCK_STRING_DATA_LENGTH) : HeadRoundTrips N string := by
      intro a d _ _
      obtain ⟨head, hok, hwritten⟩ := writeStringHead_short (s := (a, d)) hN hlen
      refine (wp_of_ok hok).2 (hwritten.stored ?_ ?_)
      · rw [drop_of_length_le hN, drop_of_length_le hlen]
      · rw [take_of_length_le hN, take_of_length_le hlen]
    rintro (⟨hN, hlen⟩ | rfl | ⟨hlt, hle, hpow⟩)
    · exact hshort hN hlen
    · rcases lt_or_ge BLOCK_STRING_DATA_LENGTH (asBytes string).length with hlen | hlen
      · exact headRoundTrips_of_written hlong le_rfl hlen hlen.le fun _ => ⟨rfl, fun hw => hw.stored rfl rfl⟩
      · exact hshort hlen hlen
    · exact headRoundTrips_of_written hlong hlt.le (hlt.trans_le hle) hle fun h =>
        ⟨(hpow h).1, fun hw => (hw.stored_iff hlt hle).2 (hpow h).2⟩
end Head
end Disk

/-- A name one byte longer than the head of a string in a directory entry. -/
def longName : String := String.ofList (List.replicate 101 'a')

/-- All 101 bytes of the name are to go into a head of 100. -/
theorem not_headRoundTrips_longName :
    letI := noBytes
    ¬ HeadRoundTrips 100 longName := by
  let _ : BlockLayout := noBytes
  have hlong : (asBytes longName).length < 2 ^ 32 := by decide +kernel
  have hmin : 100 < min (asBytes longName).length BLOCK_STRING_DATA_LENGTH := by decide +kernel
  exact not_headRoundTrips_of_panic fun _ => writeStringHead_of_lt hlong hmin

/-- A name of six bytes makes the round trip through a directory entry. -/
theorem headRoundTrips_wasabi :
    letI := noBytes
    HeadRoundTrips 100 "wasabi" := by
  let _ : BlockLayout := noBytes
  have hlong : (asBytes "wasabi").length < 2 ^ 32 := by decide +kernel
  exact (headRoundTrips_iff hlong).2 (.inl (by decide +kernel))

/-! ## A string in blocks of its own -/

section Own
variable [BlockLayout] {bytes : List UInt8} {lbas : List LBA} {string : String} {a a' : BlockAllocator}
  {d d' : Disk Block} {lba : LBA}

/-- The rest of a string, written into the blocks after the one of its head. -/
theorem writeStringRest_spec (hlen : lbas.length = partBlockCount bytes) :
    ∃ next ws, writeStringRest bytes lbas d = .ok next (d.writeAll ws) ∧ ws.map Prod.fst = lbas ∧
      ∀ {blocks : LBA → Block}, (∀ w ∈ ws, blocks w.1 = w.2) →
        HoldsParts blocks lbas (bytes.drop BLOCK_STRING_DATA_LENGTH) next := by
  unfold writeStringRest
  rw [partBlockCount, ← length_drop] at hlen
  rw [← length_drop]
  split_ifs with hzero
  · rw [hzero, countsRequiredFor_zero] at hlen
    obtain rfl := length_eq_zero_iff.1 hlen
    exact ⟨none, [], rfl, rfl, fun _ => ⟨length_eq_zero_iff.1 hzero, rfl⟩⟩
  · have hne : lbas ≠ [] := by
      rintro rfl
      rw [countsRequiredFor_of_pos (by decide) (pos_of_ne_zero hzero)] at hlen
      exact absurd hlen (succ_ne_zero _).symm
    obtain ⟨ptr, ws, hws, hfst, hholds⟩ := writeStringParts_spec (d := d) hlen hne
    exact ⟨some ptr, ws, by rw [map_apply, hws]; rfl, hfst, hholds⟩

/-- What a successful `writeString` did: it took the blocks, wrote the parts into all but the first, and
then the head into the first. -/
structure StringWritten (string : String) (a : BlockAllocator) (d : Disk Block) (lba : LBA) (a' : BlockAllocator)
    (d' : Disk Block) (list : BlockGroupList) (lbas : List LBA) (ws : List (LBA × Block))
    (head : DeviceStringHead BLOCK_STRING_DATA_LENGTH) : Prop where
  allocated : allocate (lba :: lbas).length a = .ok list a'
  blocks : list.blockIter = .ok (lba :: lbas)
  nodup : (lba :: lbas).Nodup
  device : d' = (d.writeAll ws).write lba (.blockString head)
  addresses : ws.map Prod.fst = lbas
  head : HeadWritten d'.blocks head string lbas

/-- With the blocks for it, a string that is not too long is written. -/
theorem writeString_of_allocate {list : BlockGroupList} {all : List LBA}
    (halloc : allocate (partBlockCount (asBytes string) + 1) a = .ok list a')
    (hiter : list.blockIter = .ok all) (hlong : (asBytes string).length < 2 ^ 32) :
    ∃ lba d' lbas ws head, writeString string (a, d) = .ok lba (a', d') ∧
      StringWritten string a d lba a' d' list lbas ws head := by
  obtain ⟨-, hnodup, hcount⟩ := blocks_of_allocate (le_add_left 1 _) halloc hiter
  obtain ⟨lba, lbas, rfl⟩ := exists_cons_of_length_eq_add_one hcount
  have hle : ((asBytes string).take (min (asBytes string).length BLOCK_STRING_DATA_LENGTH)).length ≤
      BLOCK_STRING_DATA_LENGTH := (length_take_le _ _).trans (min_le_right _ _)
  have htake : (asBytes string).take (min (asBytes string).length BLOCK_STRING_DATA_LENGTH) =
      (asBytes string).take BLOCK_STRING_DATA_LENGTH := by
    rw [min_comm, ← take_take, take_length]
  obtain ⟨next, ws, hparts, hfst, hholds⟩ := writeStringRest_spec (d := d) (succ_injective hcount)
  let head : DeviceStringHead BLOCK_STRING_DATA_LENGTH := ⟨(asBytes string).length, _, length_padded hle, next⟩
  obtain ⟨hnot, hnd⟩ := nodup_cons.1 hnodup
  refine ⟨lba, (d.writeAll ws).write lba (.blockString head), lbas, ws, head, ?_, hcount ▸ halloc, hiter, hnodup,
    rfl, hfst, rfl, min_le_right _ _, congrArg (padded _) htake, hholds fun w hw => ?_, succ_injective hcount⟩
  · have hrest : onDevice (writeStringRest (asBytes string) lbas) (a', d) = .ok next (a', d.writeAll ws) :=
      zoom_ok hparts
    have hallocate : onAllocator (allocate _) (a, d) = .ok list (a', d) := zoom_ok halloc
    rw [partBlockCount] at hallocate
    rw [writeString, bind_apply, hallocate, andThen_ok, hiter, lift_ok, pure_bind,
      head?_cons, expect_some, pure_bind, if_neg (not_le.2 hlong), copiedInto_of_le hle, lift_ok,
      pure_bind, tail_cons, bind_apply, hrest]
    rfl
  · have hmem : w.1 ∈ lbas := hfst ▸ mem_map_of_mem hw
    have hne : w.1 ≠ lba := fun heq => hnot (heq ▸ hmem)
    exact (Disk.write_blocks_of_ne _ _ hne).trans (Disk.writeAll_blocks_of_mem (hfst ▸ hnd) hw)

theorem writeString_eq_ok (h : writeString string (a, d) = .ok lba (a', d')) :
    ∃ list lbas ws head, StringWritten string a d lba a' d' list lbas ws head := by
  obtain ⟨list, _, hzoom, hrest⟩ := bind_ok_iff.1 h
  obtain ⟨a1, halloc, rfl⟩ := zoom_eq_ok.1 hzoom
  obtain ⟨all, _, hlift, hrest⟩ := bind_ok_iff.1 hrest
  obtain ⟨hiter, rfl⟩ := lift_eq_ok.1 hlift
  obtain ⟨first, _, hexpect, hrest⟩ := bind_ok_iff.1 hrest
  obtain ⟨-, rfl⟩ := expect_eq_ok.1 hexpect
  have hlong : (asBytes string).length < 2 ^ 32 := by
    by_contra hlong
    rw [if_pos (not_lt.1 hlong)] at hrest
    cases hrest
  obtain ⟨lba', d'', lbas, ws, head, hok, hwritten⟩ := writeString_of_allocate (d := d) halloc hiter hlong
  have heq := hok.symm.trans h
  cases heq
  exact ⟨list, lbas, ws, head, hwritten⟩

/-- **A string in blocks of its own is read back**, and exactly the blocks that were allocated are
written, each once. -/
theorem readString_of_writeString (h : writeString string (a, d) = .ok lba (a', d')) :
    readString ⟨lba⟩ d' = .ok string d' ∧
      ∃ count list lbas ws, allocate count a = .ok list a' ∧ list.blockIter = .ok lbas ∧
        d'.writes = d.writes ++ ws ∧ (ws.map Prod.fst).Perm lbas ∧ ws.length = count ∧
          ∀ x ∉ lbas, d'.blocks x = d.blocks x := by
  obtain ⟨list, lbas, ws, head, hw⟩ := writeString_eq_ok h
  have hblock : d'.blocks lba = .blockString head := by rw [hw.device, Disk.write_blocks_self]
  have hptr : readPointer (k := .blockString) ⟨lba⟩ d' = .ok head d' := readPointer_disk (congrArg _ hblock)
  refine ⟨?_, _, list, lba :: lbas, ws ++ [(lba, .blockString head)], hw.allocated, hw.blocks, ?_, ?_, ?_,
    fun x hx => ?_⟩
  · rw [readString, bind_apply, mapErr_ok hptr, andThen_ok]
    exact hw.head.read rfl
  · rw [hw.device, Disk.write_writes, Disk.writeAll_writes, append_assoc]
  · rw [map_append, hw.addresses]
    exact perm_append_singleton lba lbas
  · rw [length_append, ← length_map (f := Prod.fst), hw.addresses]
    rfl
  · obtain ⟨hne, hnot⟩ := not_or.1 (mem_cons.not.1 hx)
    rw [hw.device, Disk.write_blocks_of_ne _ _ hne, Disk.writeAll_blocks_of_notMem fun w hmem heq => hnot ?_]
    exact heq ▸ hw.addresses ▸ mem_map_of_mem hmem
end Own

/-- A string of six bytes takes the first free block. -/
theorem readString_of_writeString_sevenFree :
    letI := noBytes
    ∃ lba a' d', writeString "wasabi" sevenFree = .ok lba (a', d') ∧ lba = ⟨1, LBA.one_lt⟩ ∧
      readString ⟨lba⟩ d' = .ok "wasabi" d' := by
  let _ : BlockLayout := noBytes
  have hcount : partBlockCount (asBytes "wasabi") + 1 = 1 := by decide +kernel
  have halloc : ∀ n, n = 1 → allocate n sevenFree.1 =
      .ok ⟨[⟨⟨1, LBA.one_lt⟩, 1, by decide, by decide⟩]⟩ _ := fun n hn => by rw [hn]; rfl
  obtain ⟨lba, d', lbas, _, _, hwrite, hwritten⟩ := writeString_of_allocate (d := sevenFree.2)
    (halloc _ hcount) rfl (by decide +kernel)
  have hblocks : [(⟨1, LBA.one_lt⟩ : LBA)] = lba :: lbas := Except.ok.inj hwritten.blocks
  exact ⟨_, _, _, hwrite, (List.cons.inj hblocks).1.symm, (readString_of_writeString hwrite).1⟩
end WasabiOS
