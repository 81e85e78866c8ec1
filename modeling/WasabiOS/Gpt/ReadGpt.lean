import WasabiOS.Gpt.Reading

/-!
# Gpt/ReadGpt — which table is returned

The header in block 1 decides: it is used (`readGpt_of_accepts`), it is reported and the copy is used in its
place (`readGpt_of_rejects`), or nothing is returned.
-/

open Machinery Prog
namespace WasabiOS
namespace Gpt
variable {dev : RawDevice}

/-- What is wrong with the protective record. -/
def RawDevice.mbrWarning (dev : RawDevice) : Option InvalidMBRData :=
  errOf ((ProtectiveMBR.ofBytes (dev.block 0)).verify dev.size)

theorem readGpt_of_not_loads (hloads : ¬ dev.Loads 0) : ∃ e, readGpt dev = .err e dev := by
  rw [readGpt, bind_apply, get_apply, andThen_ok, bind_apply, allocBuffer_apply]
  by_cases hmemory : dev.hasBuffer dev.blockSize = true
  · have hrange : ¬ LBA.ZERO.get < dev.size := fun hlt => hloads ⟨hmemory, hlt⟩
    rw [if_pos hmemory, andThen_ok, bind_apply, readBlock_apply, if_neg hrange]
    exact ⟨_, rfl⟩
  · rw [if_neg hmemory]
    exact ⟨_, rfl⟩

section Loads
variable (hloads : dev.Loads 0)
include hloads

/-- A block too small for the protective record is read past its end. -/
theorem readGpt_of_small (hsmall : dev.blockSize < 512) : readGpt dev = .fault .undefined := by
  have hrange : LBA.ZERO.get < dev.size := hloads.2
  have hcast : castBlock 512 ProtectiveMBR.ofBytes (dev.block LBA.ZERO.get) = .error .undefined :=
    if_neg (by rw [dev.length_block]; exact not_le.2 hsmall)
  rw [readGpt, bind_apply, get_apply, andThen_ok, bind_apply, allocBuffer_apply,
    if_pos hloads.1, andThen_ok, bind_apply, readBlock_apply, if_pos hrange, andThen_ok,
    hcast, lift_error]
  rfl

/-- The last block. -/
theorem lastLba_eq : ∃ last, lastLba dev = .ok last ∧ last.get = dev.size - 1 := by
  have hpos : 0 < dev.size := hloads.2
  have hlt : dev.size - 1 < u64Size - 1 := Nat.sub_lt_sub_right hpos dev.size_lt
  have hnew : LBA.new (dev.size - 1) = some ⟨dev.size - 1, hlt⟩ := dif_pos hlt
  refine ⟨⟨dev.size - 1, hlt⟩, ?_, rfl⟩
  rw [lastLba, if_pos hpos, hnew]

variable (hsize : 512 ≤ dev.blockSize)
include hsize

theorem readGpt_eq : readGpt dev = readHeaders dev.mbrWarning dev := by
  have hrange : LBA.ZERO.get < dev.size := hloads.2
  have hcast : castBlock 512 ProtectiveMBR.ofBytes (dev.block LBA.ZERO.get) =
      .ok (ProtectiveMBR.ofBytes (dev.block 0)) :=
    if_pos (by rw [dev.length_block]; exact hsize)
  rw [readGpt, bind_apply, get_apply, andThen_ok, bind_apply, allocBuffer_apply,
    if_pos hloads.1, andThen_ok, bind_apply, readBlock_apply, if_pos hrange, andThen_ok,
    hcast, lift_ok, pure_bind]
  rfl

omit hloads in
theorem headerSize_le : Header.SIZE ≤ dev.blockSize := le_trans (by decide) hsize

theorem readGpt_of_panics (hpanics : dev.Panics 1) : readGpt dev = .fault .panic := by
  have hread : read LBA.ONE none dev = .fault .panic := read_of_panics (headerSize_le hsize) hpanics
  rw [readGpt_eq hloads hsize, readHeaders, bind_apply, attempt_fault hread, Outcome.andThen_fault]

theorem readGpt_of_accepts (haccepts : dev.Accepts 1) :
    readGpt dev = .ok ⟨dev.headerAt 1, dev.entries (dev.headerAt 1), dev.mbrWarning, none⟩ dev := by
  have hread : read LBA.ONE none dev = .ok (dev.headerAt 1, dev.entries (dev.headerAt 1)) dev :=
    read_of_accepts (headerSize_le hsize) haccepts
  rw [readGpt_eq hloads hsize, readHeaders, bind_apply, attempt_ok hread, andThen_ok]
  rfl

/-- **A header that is reported leads to its copy.** -/
theorem readGpt_of_rejects (hrejects : dev.Rejects 1) : ∃ (e : InvalidHeader) (last : LBA), last.get = dev.size - 1 ∧
      readGpt dev = (read last (some e) dev).andThen fun found => pure ⟨found.1, found.2, dev.mbrWarning, some e⟩ := by
  obtain ⟨e, e', hread⟩ : ∃ e e', read LBA.ONE none dev = .err (.invalidHeaders e e') dev :=
    read_of_rejects (headerSize_le hsize) hrejects
  obtain ⟨last, hlast, hget⟩ := lastLba_eq hloads
  refine ⟨e, last, hget, ?_⟩
  rw [readGpt_eq hloads hsize, readHeaders, bind_apply, attempt_err hread, andThen_ok]
  show (Prog.get >>= fun dev => lift (lastLba dev) >>= fun last => _) dev = _
  rw [bind_apply, get_apply, andThen_ok, hlast, lift_ok, pure_bind]
  rfl

/-- A header that cannot be read is not replaced. -/
theorem readGpt_of_unread (hpanics : ¬ dev.Panics 1) (hrejects : ¬ dev.Rejects 1) (haccepts : ¬ dev.Accepts 1) :
    ∃ e, readGpt dev = .err e dev := by
  obtain ⟨e, hread, he⟩ : ∃ e, read LBA.ONE none dev = .err e dev ∧ (e = .allocation ∨ e = .readBlockDevice) :=
    read_of_unread (headerSize_le hsize) hpanics hrejects haccepts
  rw [readGpt_eq hloads hsize, readHeaders, bind_apply, attempt_err hread, andThen_ok]
  obtain rfl | rfl := he
  · exact ⟨_, rfl⟩
  · exact ⟨_, rfl⟩
end Loads

/-- **What was returned was read from block 1, or from the last block.** -/
theorem accepts_of_readGpt {dev' : RawDevice} {gpt : GPT} (hread : readGpt dev = .ok gpt dev') :
    dev' = dev ∧ 512 ≤ dev.blockSize ∧ ∃ n, dev.Accepts n ∧ gpt.header = dev.headerAt n ∧
      gpt.partitions = dev.entries (dev.headerAt n) ∧
      (n = 1 ∧ gpt.warnInvalidPrimaryHeader = none ∨
        n = dev.size - 1 ∧ dev.Rejects 1 ∧ gpt.warnInvalidPrimaryHeader ≠ none) := by
  have hloads : dev.Loads 0 := by
    by_contra hloads
    obtain ⟨e, he⟩ := readGpt_of_not_loads hloads
    rw [he] at hread
    cases hread
  have hsize : 512 ≤ dev.blockSize := by
    by_contra hsmall
    rw [readGpt_of_small hloads (not_le.1 hsmall)] at hread
    cases hread
  have hpanics : ¬ dev.Panics 1 := fun hpanics => by
    rw [readGpt_of_panics hloads hsize hpanics] at hread
    cases hread
  by_cases haccepts : dev.Accepts 1
  · rw [readGpt_of_accepts hloads hsize haccepts] at hread
    cases hread
    exact ⟨rfl, hsize, 1, haccepts, rfl, rfl, Or.inl ⟨rfl, rfl⟩⟩
  by_cases hrejects : dev.Rejects 1
  swap
  · obtain ⟨e, he⟩ := readGpt_of_unread hloads hsize hpanics hrejects haccepts
    rw [he] at hread
    cases hread
  -- block 1 was reported, so the table is that of the last block
  obtain ⟨e, last, hlast, hcopy⟩ := readGpt_of_rejects hloads hsize hrejects
  have hheader := headerSize_le hsize
  rw [hcopy] at hread
  have hcopyAccepts : dev.Accepts last.get := by
    by_contra hnot
    by_cases hcopyPanics : dev.Panics last.get
    · rw [read_of_panics hheader hcopyPanics] at hread
      cases hread
    by_cases hcopyRejects : dev.Rejects last.get
    · obtain ⟨e1, e2, herr⟩ : ∃ e1 e2, read last (some e) dev = .err (.invalidHeaders e1 e2) dev :=
        read_of_rejects hheader hcopyRejects
      rw [herr] at hread
      cases hread
    · obtain ⟨e1, herr, -⟩ : ∃ e1, read last (some e) dev = .err e1 dev ∧ _ :=
        read_of_unread hheader hcopyPanics hcopyRejects hnot
      rw [herr] at hread
      cases hread
  rw [read_of_accepts hheader hcopyAccepts] at hread
  cases hread
  exact ⟨rfl, hsize, last.get, hcopyAccepts, rfl, rfl, Or.inr ⟨hlast, hrejects, Option.some_ne_none e⟩⟩
end Gpt
end WasabiOS
