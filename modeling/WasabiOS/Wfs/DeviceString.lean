import WasabiOS.Wfs.BlockAllocator

/-!
# Wfs/DeviceString — strings on the device

A string starts in a head of some capacity and continues in part blocks.  How many of its bytes are to go
into the head is computed from the capacity of a whole block, whatever the capacity of the head is.

The addresses of an allocation are computed when it is made, and not one by one.
-/

open Machinery Prog
namespace WasabiOS

/-- `as_bytes` -/
def asBytes (s : String) : List UInt8 := s.toUTF8.data.toList

/-- `String::from_utf8` -/
def fromUtf8 (bytes : List UInt8) : Option String := String.fromUTF8? ⟨bytes.toArray⟩

@[simp] theorem fromUtf8_asBytes (s : String) : fromUtf8 (asBytes s) = some s := by
  show String.fromUTF8? s.toByteArray = some s
  rw [String.fromUTF8?, dif_pos s.isValidUTF8]
  rfl

theorem fromUtf8_eq_some {bytes : List UInt8} {s : String} : fromUtf8 bytes = some s ↔ bytes = asBytes s := by
  refine ⟨fun h => ?_, fun h => h ▸ fromUtf8_asBytes s⟩
  unfold fromUtf8 String.fromUTF8? at h
  split_ifs at h
  obtain rfl := Option.some.inj h
  rfl

/-- An array of `N` zeros into the front of which `bytes` are copied. -/
def copiedInto (N : ℕ) (bytes : List UInt8) : Checked { data : List UInt8 // data.length = N } :=
  if h : bytes.length ≤ N then
    .ok ⟨bytes ++ List.replicate (N - bytes.length) 0, by
      rw [List.length_append, List.length_replicate, Nat.add_sub_cancel' h]⟩
  else .error .panic

section Device
variable {D : Type} [BlockDevice D Block] {ε α : Type}

/-- A program of the allocator of a file system. -/
def onAllocator : Prog BlockAllocator ε α → Prog (BlockAllocator × D) ε α := zoom Prod.fst fun a s => (a, s.2)

/-- A program of the device of a file system. -/
def onDevice : Prog D ε α → Prog (BlockAllocator × D) ε α := zoom Prod.snd fun d s => (s.1, d)

/-- Write the bytes, a part into each block. -/
def writePartBlocks : List UInt8 → List LBA → Prog D FsError Unit
  | [], blocks => assert blocks.isEmpty
  | _ :: _, [] => Prog.panic
  | byte :: bytes, lba :: blocks => do
    let data ← lift (copiedInto BLOCK_STRING_PART_DATA_LENGTH ((byte :: bytes).take BLOCK_STRING_PART_DATA_LENGTH))
    mapErr mapDeviceError (BlockDevice.writeBlock lba (.blockStringPart
      { data := data, data_length := data.property, next := blocks.head?.map DevicePointer.mk }))
    writePartBlocks ((byte :: bytes).drop BLOCK_STRING_PART_DATA_LENGTH) blocks

def writeStringParts (partsSubstring : List UInt8) (partBlocks : List LBA) :
    Prog D FsError (DevicePointer .blockStringPart) := do
  let firstPartLba ← expect partBlocks.head?
  writePartBlocks partsSubstring partBlocks
  return ⟨firstPartLba⟩

def writeStringHead (N : ℕ) (string : String) : Prog (BlockAllocator × D) FsError (DeviceStringHead N) := do
  let bytes := asBytes string
  let lengthInParts := bytes.length - BLOCK_STRING_DATA_LENGTH
  let lengthInHead := min bytes.length BLOCK_STRING_DATA_LENGTH
  -- `try_into::<u32>`
  if 2 ^ 32 ≤ bytes.length then Prog.throw .stringToLong
  else
    let data ← lift (copiedInto N (bytes.take lengthInHead))
    if lengthInParts = 0 then return ⟨bytes.length, data, data.property, none⟩
    else
      assert (N ≤ bytes.length)
      let blocks ← onAllocator (BlockAllocator.allocate (countsRequiredFor BLOCK_STRING_PART_DATA_LENGTH lengthInParts))
      let lbas ← lift blocks.blockIter
      let next ← onDevice (writeStringParts (bytes.drop N) lbas)
      return ⟨bytes.length, data, data.property, some next⟩

/-- Write what does not fit into the head of a block. -/
def writeStringRest (bytes : List UInt8) (partBlocks : List LBA) :
    Prog D FsError (Option (DevicePointer .blockStringPart)) :=
  if bytes.length - BLOCK_STRING_DATA_LENGTH = 0 then pure none
  else some <$> writeStringParts (bytes.drop BLOCK_STRING_DATA_LENGTH) partBlocks

/-- Write a string into blocks of its own; returns the block of its head. -/
def writeString (string : String) : Prog (BlockAllocator × D) FsError LBA := do
  let bytes := asBytes string
  let lengthInParts := bytes.length - BLOCK_STRING_DATA_LENGTH
  let lengthInHead := min bytes.length BLOCK_STRING_DATA_LENGTH
  let blocks ← onAllocator (BlockAllocator.allocate (countsRequiredFor BLOCK_STRING_PART_DATA_LENGTH lengthInParts + 1))
  let lbas ← lift blocks.blockIter
  let headLba ← expect lbas.head?
  if 2 ^ 32 ≤ bytes.length then Prog.throw .stringToLong
  else
    let data ← lift (copiedInto BLOCK_STRING_DATA_LENGTH (bytes.take lengthInHead))
    let next ← onDevice (writeStringRest bytes lbas.tail)
    onDevice (mapErr mapDeviceError
      (BlockDevice.writeBlock headLba (.blockString ⟨bytes.length, data, data.property, next⟩)))
    return headLba

/-- The loop of `readStringHead`.  Each part holds a byte at least. -/
def readStringParts : (fuel lengthRemaining : ℕ) → Option (DevicePointer .blockStringPart) → Prog D FsError (List UInt8)
  | fuel, lengthRemaining, nextPtr =>
    if lengthRemaining = 0 then return []
    else match fuel, nextPtr with
      | 0, _ => crash .diverge
      | _ + 1, none => Prog.throw (.malformedFs .malformedStringLength)
      | fuel + 1, some ptr => do
        let block : BlockStringPart ← mapErr mapDeviceError (readPointer ptr)
        let lengthInBlock := min lengthRemaining BLOCK_STRING_PART_DATA_LENGTH
        let rest ← readStringParts fuel (lengthRemaining - lengthInBlock) block.next
        return block.data.take lengthInBlock ++ rest

@[simp] theorem readStringParts_zero (fuel : ℕ) (ptr : Option (DevicePointer .blockStringPart)) :
    (readStringParts fuel 0 ptr : Prog D FsError (List UInt8)) = pure [] := by
  unfold readStringParts
  exact if_pos rfl

def readStringHead {N : ℕ} (head : DeviceStringHead N) : Prog D FsError String := do
  let lengthInBlock := min head.length BLOCK_STRING_DATA_LENGTH
  -- `&head.data[..length_in_block]`
  assert (lengthInBlock ≤ N)
  let rest ← readStringParts head.length (head.length - lengthInBlock) head.next
  match fromUtf8 (head.data.take lengthInBlock ++ rest) with
  | some string => return string
  | none => Prog.throw (.malformedFs .malformedStringUtf8)

def readString (stringPtr : DevicePointer .blockString) : Prog D FsError String := do
  let headBlock : DeviceStringHead BLOCK_STRING_DATA_LENGTH ← mapErr mapDeviceError (readPointer stringPtr)
  readStringHead headBlock
end Device
end WasabiOS
