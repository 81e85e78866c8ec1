import Mathlib.Tactic.IntervalCases
import WasabiOS.Machinery.BitField

/-!
# Kernel/Nvme/Properties — the controller properties as structs

Each property is a word that is decoded to a struct and encoded again.  `CSTS` and `AQA` round-trip; `CC` loses the
last bit of a field, and `CAP` cannot be encoded at all (`properties_roundTrip_iff`).
-/

open Machinery
namespace WasabiOS.Nvme
open Nat
variable {m : ArbitrationMechanism} {value : ℕ}

/-- The capabilities of the NVMe Controller -/
structure Capabilities where
  maximumQueueEntries : ℕ
  contiguousQueuesRequired : Bool
  arbitrationsSupported : ℕ
  reserved1 : ℕ
  timeout : ℕ
  doorbellStride : ℕ
  subsystemResetSupported : Bool
  commandSetsSupported : ℕ
  bootPartitionSupport : Bool
  powerScope : ℕ
  memMinPageSize : ℕ
  memMaxPageSize : ℕ
  persistentMemoryRegionSupport : Bool
  memoryBufferSupport : Bool
  subsystemShutdownSupport : Bool
  readyModesSupport : ℕ
  reserved2 : ℕ

namespace Capabilities

def ofU64 (word : UInt64) : Checked Capabilities := do
  let value := word.toNat
  return {
    maximumQueueEntries := ← narrow 16 (getBits value 0 16)
    contiguousQueuesRequired := getBit value 16
    arbitrationsSupported := ← narrow 8 (getBits value 17 19)
    reserved1 := ← narrow 8 (getBits value 19 24)
    timeout := ← narrow 8 (getBits value 24 32)
    doorbellStride := ← oneShl 32 (2 + getBits value 32 36)
    subsystemResetSupported := getBit value 36
    commandSetsSupported := ← narrow 8 (getBits value 37 45)
    bootPartitionSupport := getBit value 45
    powerScope := ← narrow 8 (getBits value 46 48)
    memMinPageSize := ← narrow 32 (getBits value 48 52)
    memMaxPageSize := ← narrow 32 (getBits value 52 56)
    persistentMemoryRegionSupport := getBit value 56
    memoryBufferSupport := getBit value 57
    subsystemShutdownSupport := getBit value 58
    readyModesSupport := ← narrow 8 (getBits value 59 61)
    reserved2 := ← narrow 8 (getBits value 61 64) }

def toU64 (c : Capabilities) : Checked ℕ := do
  let doorbellStride ← checkedSub (← ilog2 c.doorbellStride) 2
  -- the stride was decoded with `2 +` and is compared with `12 +`
  ensure (doorbellStride + 12 < 32 ∧ c.doorbellStride = 2 ^ (doorbellStride + 12))
  return (c.maximumQueueEntries ||| c.contiguousQueuesRequired.toNat <<< 16 ||| c.arbitrationsSupported <<< 17 |||
    c.reserved1 <<< 19 ||| c.timeout <<< 24 ||| c.doorbellStride <<< 32 ||| c.subsystemResetSupported.toNat <<< 36 |||
    c.commandSetsSupported <<< 37 ||| c.bootPartitionSupport.toNat <<< 45 ||| c.powerScope <<< 46 |||
    c.memMinPageSize <<< 48 ||| c.memMaxPageSize <<< 52 ||| c.persistentMemoryRegionSupport.toNat <<< 56 |||
    c.memoryBufferSupport.toNat <<< 57 ||| c.subsystemShutdownSupport.toNat <<< 58 ||| c.readyModesSupport <<< 59 |||
    c.reserved2 <<< 61) % 2 ^ 64

theorem exists_ofU64 (word : UInt64) : ∃ c, ofU64 word = .ok c := by
  have hstride : getBits word.toNat 32 36 < 16 := getBits_lt
  have hshl : 2 + getBits word.toNat 32 36 < 31 ∧ 2 + getBits word.toNat 32 36 < 32 := by omega
  simp (disch := decide) only [ofU64, narrow_getBits, oneShl, if_pos hshl, ok_bind]
  exact ⟨_, rfl⟩

/-- **No struct can be encoded**: its stride would be a thousand times itself. -/
theorem toU64_ne_ok (c : Capabilities) (value : ℕ) : c.toU64 ≠ .ok value := by
  intro h
  obtain ⟨log, hlog, h⟩ := bind_eq_ok.1 h
  obtain ⟨stride, hsub, h⟩ := bind_eq_ok.1 h
  obtain ⟨_, hensure, -⟩ := bind_eq_ok.1 h
  have hlt : c.doorbellStride < 2 ^ (log + 1) := by
    rw [ilog2] at hlog
    split_ifs at hlog
    cases hlog
    exact lt_pow_succ_log_self one_lt_two _
  have hstride : log = stride + 2 := by
    rw [checkedSub] at hsub
    split_ifs at hsub with hle
    cases hsub
    exact (Nat.sub_add_cancel hle).symm
  rw [ensure] at hensure
  split_ifs at hensure with heq
  have hle : 2 ^ (log + 1) ≤ 2 ^ (stride + 12) := Nat.pow_le_pow_right two_pos (by omega)
  have heq := (of_decide_eq_true heq).2
  omega
end Capabilities

/-- The arbitration mechanism used for command queue prioritazation -/
inductive ArbitrationMechanism where
  | roundRobbin
  | weightedRoundRobbin
  | reserved1
  | reserved2
  | vendorSpecific

namespace ArbitrationMechanism

def toU8 : ArbitrationMechanism → ℕ
  | roundRobbin => 0b000
  | weightedRoundRobbin => 0b001
  | reserved1 => 0b010
  | reserved2 => 0b110
  | vendorSpecific => 0b111

def tryFrom : ℕ → Option ArbitrationMechanism
  | 0b000 => some roundRobbin
  | 0b001 => some weightedRoundRobbin
  | 0b010 => some reserved1
  | 0b110 => some reserved2
  | 0b111 => some vendorSpecific
  | _ => none

theorem toU8_of_tryFrom (h : tryFrom value = some m) : m.toU8 = value := by
  unfold tryFrom at h
  split at h <;> cases h <;> rfl
end ArbitrationMechanism

/-- The `unwrap` of a conversion. -/
def unwrap {α : Type} (o : Option α) : Checked α := o.elim (.error .panic) .ok

theorem unwrap_eq_ok {α : Type} {o : Option α} {a : α} : unwrap o = .ok a ↔ o = some a := by cases o <;> simp [unwrap]

/-- The configuration of the NVMe Controller -/
structure ControllerConfiguration where
  enable : Bool
  reserved1 : ℕ
  commandSetSelected : ℕ
  memoryPageSize : ℕ
  arbitrationMechanism : ArbitrationMechanism
  shutdownNotification : ℕ
  ioSubmissionQueueEntrySize : ℕ
  ioCompletionQueueEntrySize : ℕ
  controllerReadyIndependentOfMediaEnable : Bool
  reserved2 : ℕ

namespace ControllerConfiguration

def ofU32 (word : UInt32) : Checked ControllerConfiguration := do
  let value := word.toNat
  return {
    enable := getBit value 0
    reserved1 := ← narrow 8 (getBits value 1 4)
    commandSetSelected := ← narrow 8 (getBits value 4 7)
    memoryPageSize := ← oneShl 32 (12 + getBits value 7 11)
    arbitrationMechanism := ← unwrap (ArbitrationMechanism.tryFrom (getBits value 11 14))
    shutdownNotification := ← narrow 8 (getBits value 14 16)
    ioSubmissionQueueEntrySize := ← oneShl 16 (getBits value 16 20)
    -- `20..23`, where the others are `..=`
    ioCompletionQueueEntrySize := ← oneShl 16 (getBits value 20 23)
    controllerReadyIndependentOfMediaEnable := getBit value 24
    reserved2 := ← narrow 8 (getBits value 25 32) }

def toU32 (c : ControllerConfiguration) : Checked ℕ := do
  let memoryPageSize ← checkedSub (← ilog2 c.memoryPageSize) 12
  ensure (c.memoryPageSize = 2 ^ (memoryPageSize + 12))
  let subQueueSize ← ilog2 c.ioSubmissionQueueEntrySize
  ensure (c.ioSubmissionQueueEntrySize = 2 ^ subQueueSize)
  let compQueueSize ← ilog2 c.ioCompletionQueueEntrySize
  ensure (c.ioCompletionQueueEntrySize = 2 ^ compQueueSize)
  return (c.enable.toNat ||| c.reserved1 <<< 1 ||| c.commandSetSelected <<< 4 ||| memoryPageSize <<< 7 |||
    c.arbitrationMechanism.toU8 <<< 11 ||| c.shutdownNotification <<< 14 ||| subQueueSize <<< 16 |||
    compQueueSize <<< 20 ||| c.controllerReadyIndependentOfMediaEnable.toNat <<< 24 ||| c.reserved2 <<< 25) % 2 ^ 32

/-- All fields come back but the last bit of the completion entry size. -/
theorem roundTrip_eq {word : UInt32} (hm : ArbitrationMechanism.tryFrom (getBits word.toNat 11 14) = some m) :
    ofU32 word >>= toU32 = .ok ((word.toNat % 2 ^ 23 ||| getBits word.toNat 24 25 <<< 24 |||
      getBits word.toNat 25 32 <<< 25) % 2 ^ 32) := by
  have hpage : getBits word.toNat 7 11 < 16 := getBits_lt
  have hsub : getBits word.toNat 16 20 < 16 := getBits_lt
  have hcomp : getBits word.toNat 20 23 < 8 := getBits_lt
  have hbits : getBits word.toNat 0 1 ||| getBits word.toNat 1 4 <<< 1 ||| getBits word.toNat 4 7 <<< 4 |||
      getBits word.toNat 7 11 <<< 7 ||| getBits word.toNat 11 14 <<< 11 ||| getBits word.toNat 14 16 <<< 14 |||
      getBits word.toNat 16 20 <<< 16 ||| getBits word.toNat 20 23 <<< 20 = word.toNat % 2 ^ 23 := by
    simp (disch := decide) only [getBits_zero, mod_or_getBits]
  simp (disch := decide) [ofU32, toU32, ensure, checkedSub, narrow_getBits, oneShl, unwrap_eq_ok.2 hm, toNat_getBit,
    show 12 + getBits word.toNat 7 11 < 31 by omega, show 12 + getBits word.toNat 7 11 < 32 by omega,
    show getBits word.toNat 16 20 < 31 by omega, show getBits word.toNat 20 23 < 31 by omega,
    show getBits word.toNat 20 23 < 16 by omega, hsub, add_comm, ArbitrationMechanism.toU8_of_tryFrom hm, hbits]

theorem roundTrip_iff (word : UInt32) : ofU32 word >>= toU32 = .ok word.toNat ↔
    (ArbitrationMechanism.tryFrom (getBits word.toNat 11 14)).isSome ∧ getBit word.toNat 23 = false := by
  cases hm : ArbitrationMechanism.tryFrom (getBits word.toNat 11 14) with
  | none =>
    refine iff_of_false (fun h => ?_) (fun h => Bool.false_ne_true h.1)
    obtain ⟨c, hc, -⟩ := bind_eq_ok.1 h
    -- two reserved fields and the page size come before it
    obtain ⟨_, -, hc⟩ := bind_eq_ok.1 hc
    obtain ⟨_, -, hc⟩ := bind_eq_ok.1 hc
    obtain ⟨_, -, hc⟩ := bind_eq_ok.1 hc
    obtain ⟨m, hunwrap, -⟩ := bind_eq_ok.1 hc
    exact Option.some_ne_none m ((unwrap_eq_ok.1 hunwrap).symm.trans hm)
  | some m =>
    rw [roundTrip_eq hm, Except.ok.injEq, Option.isSome_some, eq_self, true_and]
    constructor
    · intro h
      rw [getBit, ← h]
      rw [testBit_mod_two_pow, testBit_or, testBit_or, testBit_mod_two_pow, testBit_shiftLeft, testBit_shiftLeft]
      rfl
    · intro h
      have hlow : word.toNat % 2 ^ 23 = word.toNat % 2 ^ 24 := by
        rw [← mod_or_getBits word.toNat (show 23 ≤ 24 by decide), ← toNat_getBit, h, Bool.toNat_false, zero_shiftLeft,
          or_zero]
      simp (disch := decide) only [hlow, mod_or_getBits, mod_eq_of_lt word.toNat_lt]
end ControllerConfiguration

/-- The shutdown status of an NVME controller -/
inductive ShutdownStatus where
  | normalOperation
  | occuring
  | complete
  | reserved

namespace ShutdownStatus

def toU8 : ShutdownStatus → ℕ
  | normalOperation => 0
  | occuring => 0b01
  | complete => 0b10
  | reserved => 0b11

def tryFrom : ℕ → Option ShutdownStatus
  | 0 => some normalOperation
  | 0b01 => some occuring
  | 0b10 => some complete
  | 0b11 => some reserved
  | _ => none

theorem exists_tryFrom (h : value < 4) : ∃ status, tryFrom value = some status ∧ status.toU8 = value := by
  interval_cases value <;> exact ⟨_, rfl, rfl⟩
end ShutdownStatus

/-- Status of the controller -/
structure ControllerStatus where
  ready : Bool
  fatalError : Bool
  shutdownStatus : ShutdownStatus
  subsystemResetOccured : Bool
  processingPaused : Bool
  shutdownType : Bool
  reserved : ℕ

namespace ControllerStatus

def ofU32 (word : UInt32) : Checked ControllerStatus := do
  let value := word.toNat
  return {
    ready := getBit value 0
    fatalError := getBit value 1
    shutdownStatus := ← unwrap (ShutdownStatus.tryFrom (getBits value 2 4))
    subsystemResetOccured := getBit value 4
    processingPaused := getBit value 5
    shutdownType := getBit value 6
    reserved := getBits value 7 32 }

def toU32 (c : ControllerStatus) : ℕ :=
  (c.reserved <<< 7 ||| c.shutdownType.toNat <<< 6 ||| c.processingPaused.toNat <<< 5 |||
    c.subsystemResetOccured.toNat <<< 4 ||| c.shutdownStatus.toU8 <<< 2 ||| c.fatalError.toNat <<< 1 |||
    c.ready.toNat) % 2 ^ 32

theorem roundTrip (word : UInt32) : (do return (← ofU32 word).toU32) = (.ok word.toNat : Checked ℕ) := by
  obtain ⟨status, hstatus, hcode⟩ := ShutdownStatus.exists_tryFrom (getBits_lt : getBits word.toNat 2 4 < 2 ^ (4 - 2))
  simp only [ofU32, unwrap_eq_ok.2 hstatus, ok_bind]
  refine pure_eq_ok.2 ?_
  simp only [toU32, hcode, toNat_getBit]
  calc
    _ = (getBits word.toNat 0 1 ||| getBits word.toNat 1 2 <<< 1 ||| getBits word.toNat 2 4 <<< 2 |||
        getBits word.toNat 4 5 <<< 4 ||| getBits word.toNat 5 6 <<< 5 ||| getBits word.toNat 6 7 <<< 6 |||
        getBits word.toNat 7 32 <<< 7) % 2 ^ 32 := by ac_rfl
    _ = word.toNat := by simp (disch := decide) only [getBits_zero, mod_or_getBits, mod_eq_of_lt word.toNat_lt]
end ControllerStatus

/-- AQA: Admin Queue Attributes -/
structure AdminQueueAttributes where
  submissionQueueSize : ℕ
  completionQueueSize : ℕ
  reserved1 : ℕ
  reserved2 : ℕ

namespace AdminQueueAttributes

def ofU32 (word : UInt32) : Checked AdminQueueAttributes := do
  let value := word.toNat
  let submissionQueueSize := getBits value 0 12 + 1
  ensure (submissionQueueSize ≤ 4096)
  let completionQueueSize := getBits value 16 28 + 1
  ensure (completionQueueSize ≤ 4096)
  let reserved1 ← narrow 8 (getBits value 12 16)
  let reserved2 ← narrow 8 (getBits value 28 32)
  return ⟨submissionQueueSize, completionQueueSize, reserved1, reserved2⟩

def toU32 (c : AdminQueueAttributes) : Checked ℕ := do
  let subValue ← checkedSub c.submissionQueueSize 1
  let compValue ← checkedSub c.completionQueueSize 1
  return (subValue ||| compValue <<< 16 ||| c.reserved1 <<< 12 ||| c.reserved2 <<< 28) % 2 ^ 32

theorem roundTrip (word : UInt32) : ofU32 word >>= toU32 = .ok word.toNat := by
  have hsub : getBits word.toNat 0 12 < 4096 := getBits_lt
  have hcomp : getBits word.toNat 16 28 < 4096 := getBits_lt
  have hbits : getBits word.toNat 0 12 ||| getBits word.toNat 16 28 <<< 16 ||| getBits word.toNat 12 16 <<< 12 |||
      getBits word.toNat 28 32 <<< 28 = word.toNat := by
    rw [lor_assoc (getBits _ _ _), lor_comm (_ <<< 16), ← lor_assoc]
    simp (disch := decide) only [getBits_zero, mod_or_getBits, mod_eq_of_lt word.toNat_lt]
  simp (disch := decide) [ofU32, toU32, ensure, checkedSub, narrow_getBits, succ_le_of_lt hsub,
    succ_le_of_lt hcomp, hbits, mod_eq_of_lt word.toNat_lt]
end AdminQueueAttributes

/-- **Which properties come back as they were**: `CAP` is decoded and never encoded again, `CC` comes back exactly if
its arbitration mechanism is defined and bit 23 is not set, `CSTS` and `AQA` always do. -/
theorem properties_roundTrip_iff (cap : UInt64) (word : UInt32) :
    ((∃ c, Capabilities.ofU64 cap = .ok c) ∧ ∀ c value, Capabilities.toU64 c ≠ .ok value) ∧
    (ControllerConfiguration.ofU32 word >>= ControllerConfiguration.toU32 = .ok word.toNat ↔
      (ArbitrationMechanism.tryFrom (getBits word.toNat 11 14)).isSome ∧ getBit word.toNat 23 = false) ∧
    (do return (← ControllerStatus.ofU32 word).toU32) = (.ok word.toNat : Checked ℕ) ∧
    AdminQueueAttributes.ofU32 word >>= AdminQueueAttributes.toU32 = .ok word.toNat :=
  ⟨⟨Capabilities.exists_ofU64 cap, Capabilities.toU64_ne_ok⟩, ControllerConfiguration.roundTrip_iff word,
    ControllerStatus.roundTrip word, AdminQueueAttributes.roundTrip word⟩

/-- **A `CAP` of zero, and a `CC` with the largest completion entry size.** -/
theorem not_properties_roundTrip : Capabilities.ofU64 0 >>= Capabilities.toU64 = .error .panic ∧
    ControllerConfiguration.ofU32 0x00F00000 >>= ControllerConfiguration.toU32 = .ok 0x00700000 := by
  constructor <;> decide +kernel
end WasabiOS.Nvme
