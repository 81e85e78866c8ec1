import Mathlib.Algebra.Order.BigOperators.Group.List
import WasabiOS.Machinery.Run
import WasabiOS.Wfs.MemTree.Delete
import WasabiOS.Wfs.MemTree.Overflow

/-!
# Wfs/MemTree/MapRuns — the tree is a map

A tree that starts empty takes calls one after another, and beside it a finite map takes the same
ones.  **As long as no insert overflows, the tree answers every call as the map does**
(`answers_as_map`), and between the calls it satisfies its representation invariant
(`keeps_repInv`).  What one call does is `TreeCall.step_spec`.
-/

open Machinery Prog Machinery.Keyed
namespace WasabiOS
open List Run
variable {file : FileNode} {σ : Store (Disk Block) × FileMap}

/-- A call of the tree's interface. -/
inductive TreeCall where
  | insertNew (file : FileNode)
  | update (file : FileNode)
  | delete (id : FileId)
  | find (id : FileId)

/-- What a call that succeeds answers. -/
inductive TreeAnswer where
  | done
  | deleted (file : FileNode)
  | found (file : Option FileNode)

/-- A finite map from ids to files. -/
abbrev FileMap := FileId → Option FileNode

namespace TreeCall

/-- How a map answers a call, and the map after it. -/
def spec : TreeCall → FileMap → Except MemTreeError TreeAnswer × FileMap
  | insertNew file, m =>
    if (m file.id).isSome then (.error (.fileNodeExists file.id), m)
    else (.ok .done, Function.update m file.id (some file))
  | update file, m => (.ok .done, Function.update m file.id (some file))
  | delete id, m =>
    match m id with
    | some file => (.ok (.deleted file), Function.update m id none)
    | none => (.error (.fileDoesNotExist id), m)
  | find id, m => (.ok (.found (m id)), m)

variable [BlockLayout]

/-- The call, made of a tree. -/
def run : TreeCall → Prog (Store (Disk Block)) MemTreeError TreeAnswer
  | insertNew file => do Store.insertNew file; return .done
  | update file => do Store.update file; return .done
  | delete id => do return .deleted (← Store.delete id)
  | find id => do return .found (← mapErr MemTreeError.ofFsError (Store.find id))

/-- The tree and the map after a call, if the tree survives it. -/
def step (c : TreeCall) (σ : Store (Disk Block) × FileMap) : Option (Store (Disk Block) × FileMap) :=
  (c.run σ.1).state?.map fun s => (s, (c.spec σ.2).2)

/-- The tree does not fault, and answers as the map does. -/
def Agrees (c : TreeCall) (σ : Store (Disk Block) × FileMap) : Prop :=
  (c.run σ.1).Ends (fun answer _ => (c.spec σ.2).1 = .ok answer) (fun e _ => (c.spec σ.2).1 = .error e)

/-- The call leaves a valid tree behind, if the tree survives it. -/
def KeepsRepInv (c : TreeCall) (σ : Store (Disk Block) × FileMap) : Prop := ∀ σ' ∈ c.step σ, σ'.1.tree.RepInv

omit [BlockLayout] in
/-- The call does not have to split a full leave below a full inner node. -/
def HasRoom : TreeCall → Store (Disk Block) × FileMap → Prop
  | insertNew file, σ | update file, σ => σ.1.overflows file.id = false
  | delete _, _ | find _, _ => True

omit [BlockLayout] in
instance : ∀ (c : TreeCall) (σ : Store (Disk Block) × FileMap), Decidable (c.HasRoom σ)
  | insertNew file, σ | update file, σ => inferInstanceAs (Decidable (σ.1.overflows file.id = false))
  | delete _, _ | find _, _ => inferInstanceAs (Decidable True)
end TreeCall

/-- A file node stands for itself, and none is on the device. -/
def FileView.self : FileView FileNode where
  key := FileNode.id
  mem _ f := f
  Held _ _ := True
  Loads := False
  load g := .ofFs g 0
  OnDisk _ _ _ _ := False
  key_mem _ _ := rfl
  mem_congr _ _ := rfl
  held_mono _ _ := trivial
  mem_ofFs h := h.elim
  held_ofFs h := h.elim
  onDisk_load h := h.elim

/-- The tree holds the files of the map. -/
def Holds (σ : Store (Disk Block) × FileMap) : Prop := ∃ sh, Rep FileView.self σ.1 σ.1 false sh ∧ sh.Valid FileNode.id ∧
    σ.2 = fun id => lookup FileNode.id id sh.entries

/-! ## One call -/

section Step
variable [BlockLayout] {σ : Store (Disk Block) × FileMap} {s' : Store (Disk Block)} {c : TreeCall}

/-- What the weakest precondition of a call says about the step. -/
theorem TreeCall.of_wp (h : c.run.wp (fun answer s' => (c.spec σ.2).1 = .ok answer ∧ Holds (s', (c.spec σ.2).2))
    (fun e s' => (c.spec σ.2).1 = .error e ∧ Holds (s', (c.spec σ.2).2)) σ.1) :
    c.Agrees σ ∧ ∀ σ' ∈ c.step σ, Holds σ' := by
  rw [Prog.wp] at h
  unfold Agrees step
  rcases hrun : c.run σ.1 with ⟨answer, s'⟩ | ⟨e, s'⟩ | f
  all_goals rw [hrun] at h
  case fault => exact h.elim
  all_goals
    refine ⟨h.1, fun σ' hσ' => ?_⟩
    obtain rfl : (s', (c.spec σ.2).2) = σ' := by simpa [Outcome.state?] using hσ'
    exact h.2

/-- `insert`, of a map that says whether the file is there. -/
theorem Holds.insert (h : Holds σ) (hroom : σ.1.overflows file.id = false)
    (createOnly : Bool) : (Store.insert file createOnly).wp (fun _ s' => (createOnly = true → σ.2 file.id = none) ∧
        Holds (s', Function.update σ.2 file.id (some file)))
      (fun e s' => e = .fileNodeExists file.id ∧ createOnly = true ∧ σ.2 file.id ≠ none ∧ Holds (s', σ.2)) σ.1 := by
  obtain ⟨sh, H, hv, hmap⟩ := h
  refine wp_mono (H.insert hv trivial (H.hasRoom hv hroom) createOnly) ?_ ?_
  · rintro _ s' ⟨sh', H', hv', -, hup, hnew⟩
    exact ⟨fun hc => hmap ▸ hnew hc, sh', H'.rebase, hv', hmap ▸ hup.lookup_update.symm⟩
  · rintro e s' ⟨rfl, hc, hold, sh', H', hv', -, hentries⟩
    exact ⟨rfl, hc, hmap ▸ hold, sh', H'.rebase, hv', hentries ▸ hmap⟩

/-- **One call**: a tree that has room answers as the map does, and holds the files of the map
afterwards. -/
theorem TreeCall.step_spec (h : Holds σ) (hroom : c.HasRoom σ) : c.Agrees σ ∧ ∀ σ' ∈ c.step σ, Holds σ' := by
  refine TreeCall.of_wp ?_
  rcases c with file | file | id | id
  · refine (wp_bind _ _).2 (wp_mono (h.insert hroom true) ?_ ?_)
    · rintro _ s' ⟨hnew, hs'⟩
      simpa [spec, hnew rfl] using hs'
    · rintro e s' ⟨rfl, -, hold, hs'⟩
      simpa [spec, Option.isSome_iff_ne_none.2 hold] using hs'
  · refine (wp_bind _ _).2 (wp_mono (h.insert hroom false) ?_ ?_)
    · rintro _ s' ⟨-, hs'⟩
      simpa [spec] using hs'
    · rintro e s' ⟨-, hfalse, -⟩
      cases hfalse
  · obtain ⟨sh, H, hv, hmap⟩ := h
    refine (wp_bind _ _).2 (wp_mono (H.delete hv id) ?_ ?_)
    · rintro file s' ⟨sh', H', hv', -, rfl, hins⟩
      have hfile : σ.2 file.id = some file := by
        rw [hmap]
        exact (hins.lookup_eq file.id).trans (if_pos rfl)
      simp only [wp_pure, spec, hfile, true_and]
      exact ⟨sh', H'.rebase, hv', hmap ▸ hins.lookup_erase.symm⟩
    · rintro e s' ⟨rfl, hnone, sh', H', hv', -, hentries⟩
      have hid : σ.2 id = none := hmap ▸ hnone
      simp only [spec, hid, true_and]
      exact ⟨sh', H'.rebase, hv', hentries ▸ hmap⟩
  · obtain ⟨sh, H, hv, hmap⟩ := h
    simp only [run, wp_bind, wp_mapErr, wp_pure]
    refine H.find hv fun file s' sh' H' hv' hentries _ hfile => ?_
    have hid : σ.2 id = file := by
      rw [hmap]
      simpa [FileView.self] using hfile.symm
    simp only [spec, hid, true_and]
    exact ⟨sh', H'.rebase, hv', hentries ▸ hmap⟩
end Step

/-- The empty tree beside the empty map. -/
def emptyTree (allocator : BlockAllocator) (device : Disk Block) : Store (Disk Block) × FileMap :=
  (⟨MemTree.empty, allocator, device⟩, fun _ => none)

/-- The empty tree holds nothing. -/
theorem holds_emptyTree (allocator : BlockAllocator) (device : Disk Block) : Holds (emptyTree allocator device) := by
  refine ⟨.leave { node := some 0, devicePtr := none } [] true, ?_, ⟨List.Pairwise.nil, by simp⟩, rfl⟩
  refine { frame := .refl _, root := rfl, rootLock := rfl, leave := ?_, clean := Bool.noConfusion, fresh := ?_ }
  · exact ⟨StaticVec.new, by simp [emptyTree, MemTree.empty], rfl, by simp [StaticVec.new]⟩
  · intro x hx
    have hne : x ≠ 0 := Nat.one_le_iff_ne_zero.1 hx
    simp [emptyTree, MemTree.empty, hne]

/-! ## Too many files

Files with ascending ids, one more than a tree of two levels can hold: at some point an insert
overflows. -/

/-- A tree of two levels holds no more files than this. -/
def maxFiles : ℕ := NODE_MAX_CHILD_COUNT * LEAVE_MAX_FILE_COUNT

theorem mod_maxFiles_lt (k : ℕ) : k % (maxFiles + 1) + 1 < u64Size :=
  lt_of_le_of_lt (Nat.mod_lt k (Nat.succ_pos maxFiles)) (by decide)

/-- A file with the id `k + 1`. -/
def numbered (k : ℕ) : FileNode :=
  .new ⟨k % (maxFiles + 1) + 1, Nat.succ_pos (k % (maxFiles + 1)), mod_maxFiles_lt k⟩ none .file 0 0 0

theorem numbered_get {k : ℕ} (h : k ≤ maxFiles) : (numbered k).id.get = k + 1 :=
  congrArg Nat.succ (Nat.mod_eq_of_lt (Nat.lt_succ_of_le h))

/-- Files are inserted in the order of their ids, and each is looked for at once. -/
def ascending : (first count : ℕ) → List TreeCall
  | _, 0 => []
  | k, n + 1 => .insertNew (numbered k) :: .find (numbered k).id :: ascending (k + 1) n

/-- A valid tree of two levels holds at most `maxFiles` files. -/
theorem Holds.length_le {sh : Shape FileNode} (H : Rep FileView.self σ.1 σ.1 false sh) (hv : sh.Valid FileNode.id) :
    sh.entries.length ≤ maxFiles := by
  rcases sh with ⟨root, files, d⟩ | ⟨root, cs, d, dc⟩
  · exact hv.2.trans (by decide)
  · have hsum : (Child.entries cs).length ≤ cs.length * LEAVE_MAX_FILE_COUNT := by
      rw [Child.entries, length_flatMap]
      refine (sum_le_card_nsmul _ LEAVE_MAX_FILE_COUNT ?_).trans (by simp)
      intro n hn
      obtain ⟨c, hc, rfl⟩ := mem_map.1 hn
      exact (hv.fits c hc).le_max
    exact hsum.trans (Nat.mul_le_mul_right _ H.length_le)

/-- There is always an id among the first `maxFiles + 1` that the tree does not hold. -/
theorem Holds.exists_none (h : Holds σ) : ∃ k ≤ maxFiles, σ.2 (numbered k).id = none := by
  obtain ⟨sh, H, hv, hmap⟩ := h
  by_contra hall
  push Not at hall
  have hsub : (List.range (maxFiles + 1)).map (fun k => (numbered k).id) ⊆
      sh.entries.map FileNode.id := by
    intro id hid
    obtain ⟨k, hk, rfl⟩ := mem_map.1 hid
    have hne := hall k (Nat.lt_succ_iff.1 (mem_range.1 hk))
    rw [hmap, ne_eq, lookup_eq_none] at hne
    push Not at hne
    obtain ⟨f, hf, hfid⟩ := hne
    exact hfid ▸ mem_map_of_mem hf
  have hnodup : ((List.range (maxFiles + 1)).map fun k => (numbered k).id).Nodup := by
    refine List.Nodup.map_on ?_ nodup_range
    intro i hi j hj hij
    have := congrArg FileId.get hij
    rw [numbered_get (Nat.lt_succ_iff.1 (mem_range.1 hi)),
      numbered_get (Nat.lt_succ_iff.1 (mem_range.1 hj))] at this
    exact Nat.succ.inj this
  have hle := (subperm_of_subset hnodup hsub).length_le
  rw [length_map, length_map, length_range] at hle
  exact absurd (hle.trans (Holds.length_le H hv)) (Nat.not_succ_le_self _)

section Runs
variable [BlockLayout] {σ : Store (Disk Block) × FileMap} {c : TreeCall}
  {P : TreeCall → Store (Disk Block) × FileMap → Prop}

theorem TreeCall.Agrees.exists_step (h : c.Agrees σ) : ∃ σ', c.step σ = some σ' := by
  unfold Agrees at h
  unfold step
  rcases hrun : c.run σ.1 with ⟨answer, s'⟩ | ⟨e, s'⟩ | f
  · exact ⟨_, rfl⟩
  · exact ⟨_, rfl⟩
  · rw [hrun] at h
    exact h.elim

/-- The map of a state after a call is the one its map makes of the call. -/
theorem TreeCall.step_map {σ' : Store (Disk Block) × FileMap} (h : c.step σ = some σ') : σ'.2 = (c.spec σ.2).2 := by
  obtain ⟨s', -, rfl⟩ := Option.map_eq_some_iff.1 h
  rfl

/-- An insert of the largest id that overflows. -/
theorem Holds.insertNew_overflows (h : Holds σ)
    (hlt : ∀ id, σ.2 id ≠ none → id < file.id) (hover : σ.1.overflows file.id = true) :
    ∃ s' y x r a, (TreeCall.insertNew file).step σ =
      some (s', Function.update σ.2 file.id (some file)) ∧ Overflown s' file.id y x r a := by
  obtain ⟨sh, H, hv, hmap⟩ := h
  have hentries : ∀ f ∈ sh.entries, FileView.self.key f < file.id := by
    intro f hf
    refine hlt _ ?_
    rw [hmap]
    exact fun hnone => lookup_eq_none.1 hnone f hf rfl
  have hnone : σ.2 file.id = none := by
    by_contra hsome
    exact (hlt file.id hsome).false
  have hrun := H.insert_overflows (E := fun _ _ => False) hv trivial hentries hover true
  rcases hinsert : Store.insert file true σ.1 with ⟨u, s'⟩ | ⟨e, s'⟩ | f
  all_goals rw [Prog.wp, hinsert] at hrun
  · obtain ⟨y, x, r, a, hover⟩ := hrun
    refine ⟨s', y, x, r, a, ?_, hover⟩
    simp [TreeCall.step, TreeCall.run, Store.insertNew, hinsert, TreeCall.spec, hnone, Outcome.state?]
  · exact hrun.elim
  · exact hrun.elim

/-- Whatever an overflow breaks, ascending inserts break. -/
theorem not_along_ascending (hP : ∀ {σ file rest s' y x r a}, (TreeCall.insertNew file).step σ =
        some (s', Function.update σ.2 file.id (some file)) → Overflown s' file.id y x r a →
      ¬ Along TreeCall.step P (.insertNew file :: .find file.id :: rest) σ) :
    ∀ {n k : ℕ} {σ : Store (Disk Block) × FileMap}, k + n = maxFiles + 1 → Holds σ →
      (∀ id, σ.2 id ≠ none ↔ id.get ≤ k) → ¬ Along TreeCall.step P (ascending k n) σ
  | 0, k, σ, hk, h, hmap => by
    -- no tree holds that many
    obtain ⟨i, hi, hnone⟩ := h.exists_none
    refine absurd hnone ((hmap _).2 ?_)
    rw [numbered_get hi]
    omega
  | n + 1, k, σ, hk, h, hmap => by
    intro halong
    have hget : (numbered k).id.get = k + 1 := numbered_get (by omega)
    rcases hover : σ.1.overflows (numbered k).id with _ | _
    · obtain ⟨hagrees, hholds⟩ := TreeCall.step_spec (c := .insertNew (numbered k)) h hover
      obtain ⟨σ1, hσ1⟩ := hagrees.exists_step
      have h1 := hholds σ1 hσ1
      obtain ⟨hagrees', hholds'⟩ := TreeCall.step_spec (c := .find (numbered k).id) h1 trivial
      obtain ⟨σ2, hσ2⟩ := hagrees'.exists_step
      refine not_along_ascending hP (by omega) (hholds' σ2 hσ2) (fun id => ?_) ((halong.2 σ1 hσ1).2 σ2 hσ2)
      have hnone : σ.2 (numbered k).id = none := by
        by_contra hsome
        have := (hmap _).1 hsome
        omega
      rw [TreeCall.step_map hσ2, TreeCall.spec, TreeCall.step_map hσ1, TreeCall.spec, hnone]
      simp only [Option.isSome_none, Bool.false_eq_true, if_false, Function.update_apply]
      split_ifs with hid
      · simp [hid, hget]
      · have hne : id.get ≠ k + 1 := fun h => hid (FileId.ext (h.trans hget.symm))
        rw [hmap id]
        omega
    · obtain ⟨s', y, x, r, a, hstep, hs'⟩ := h.insertNew_overflows (fun id hid => by
        rw [FileId.lt_def, hget]
        exact Nat.lt_succ_of_le ((hmap id).1 hid)) hover
      exact hP hstep hs' halong

/-- From the empty tree on, all of them. -/
theorem not_along_all (allocator : BlockAllocator) (device : Disk Block)
    (hP : ∀ {σ file rest s' y x r a}, (TreeCall.insertNew file).step σ =
        some (s', Function.update σ.2 file.id (some file)) → Overflown s' file.id y x r a →
      ¬ Along TreeCall.step P (.insertNew file :: .find file.id :: rest) σ) :
    ¬ Along TreeCall.step P (ascending 0 (maxFiles + 1)) (emptyTree allocator device) := by
  refine not_along_ascending hP (zero_add _) (holds_emptyTree allocator device) fun id => ?_
  exact iff_of_false (fun h => h rfl) id.pos.not_ge
end Runs

/-! ## Whole runs -/

/-- An allocator and a device that are not used. -/
def noBlocks : BlockAllocator × Disk Block := ({ free := [], onDisk := none, selfOnDisk := [], dirty := false },
    { size := 0, blocks := fun _ => .data [], writes := [] })

/-- **The tree is a map** as long as no insert overflows. -/
theorem answers_as_map [BlockLayout] (allocator : BlockAllocator) (device : Disk Block) (calls : List TreeCall)
    (h : Along TreeCall.step TreeCall.HasRoom calls (emptyTree allocator device)) :
    Along TreeCall.step TreeCall.Agrees calls (emptyTree allocator device) :=
  along_of_invariant (fun _ _ => TreeCall.step_spec) (holds_emptyTree allocator device) h

/-- Twenty-one files split the first leave, and deleting one merges the halves again. -/
theorem answers_as_map_merge :
    letI := noBytes
    Along TreeCall.step TreeCall.Agrees
      (ascending 0 21 ++ [.update (numbered 3), .delete (numbered 4).id, .delete (numbered 4).id])
      (emptyTree noBlocks.1 noBlocks.2) :=
  letI := noBytes
  answers_as_map _ _ _ (by decide +kernel)

/-- Inserting `maxFiles + 1` files in the order of their ids, at some point the tree does not find
the file it was just given. -/
theorem not_answers_as_map_ascending :
    letI := noBytes
    ¬ Along TreeCall.step TreeCall.Agrees (ascending 0 (maxFiles + 1)) (emptyTree noBlocks.1 noBlocks.2) := by
  let _ := noBytes
  refine not_along_all _ _ fun hstep hover halong => ?_
  have hfind := (halong.2 _ hstep).1
  have hnone := hover.find (E := fun _ _ => False)
  rw [TreeCall.Agrees] at hfind
  rw [Prog.wp] at hnone
  simp only [TreeCall.run, bind_apply, mapErr] at hfind
  split at hfind
  · rename_i hrun
    rw [hrun] at hnone
    simp only [Outcome.ends_ok] at hnone
    simp [TreeCall.spec, hnone] at hfind
  · rename_i hrun
    rw [hrun] at hnone
    exact hnone
  · exact hfind

end WasabiOS
