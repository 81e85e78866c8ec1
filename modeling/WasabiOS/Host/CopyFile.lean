import WasabiOS.Wfs.Directory

/-!
# Host/CopyFile — copying a file into an image

The builder creates a file in the image and writes the chunks it reads from the source, one after the other.
The file system is given by the operations the builder uses and a contract: `Stores` says that `write_file`
stores the data at the offset it is given.  A `Source` is given by the chunks its reads return before the end.

`copy_file` adds the length of a chunk to the offset before it writes the chunk, so every chunk lands behind its
place and nothing is ever written to the first byte: `copies_iff`.
-/

open Machinery Prog
namespace WasabiOS

/-! ## The builder -/

/-- The operations of a file system the builder uses. -/
structure ImageFs (σ ε : Type) where
  readDirectory : FileId → Prog σ ε Directory
  createDirectory : Directory → String → Prog σ ε FileId
  createFile : String → FileId → Prog σ ε FileId
  writeFile : FileId → ℕ → List UInt8 → Prog σ ε Unit

/-- The size of the buffer, 64 KiB. -/
def MAX_BUFFER : ℕ := 64 * 1024

/-- A source file, as its reads return it: a read fills a part of the buffer, and returns nothing only at the
end. -/
structure Source where
  chunks : List (List UInt8)
  nonempty : ∀ chunk ∈ chunks, chunk ≠ []
  bounded : ∀ chunk ∈ chunks, chunk.length ≤ MAX_BUFFER

def Source.bytes (source : Source) : List UInt8 := source.chunks.flatten

variable {σ ε : Type} (fs : ImageFs σ ε)

/-- The loop over the path, from a directory on. -/
def getOrMakeDirFrom : FileId → List String → Prog σ ε FileId
  | dirId, [] => return dirId
  | dirId, segment :: path => do
    let currentDir ← fs.readDirectory dirId
    match currentDir.entries.find? fun entry => entry.name = segment with
    | some entry => getOrMakeDirFrom entry.id path
    | none => do getOrMakeDirFrom (← fs.createDirectory ⟨some dirId, []⟩ segment) path

def getOrMakeDir (path : List String) : Prog σ ε FileId := getOrMakeDirFrom fs FileId.ROOT path

/-- The loop over what the reads of the source return. -/
def copyChunks (fileId : FileId) : (offset : ℕ) → List (List UInt8) → Prog σ ε Unit
  | _, [] => return ()
  | offset, chunk :: chunks => do
    let offset ← lift (if offset + chunk.length < u64Size then .ok (offset + chunk.length) else .error .panic)
    if chunk.length = 0 then return ()
    else
      -- `&buffer[0..bytes]`
      assert (chunk.length ≤ MAX_BUFFER)
      fs.writeFile fileId offset chunk
      copyChunks fileId offset chunks

def copyFile (parentDirPath : List String) (fileName : String) (source : Source) : Prog σ ε Unit := do
  let dirId ← getOrMakeDir fs parentDirPath
  let fileId ← fs.createFile fileName dirId
  copyChunks fs fileId 0 source.chunks

/-! ## The contract of the file system -/

/-- The bytes of all files. -/
abbrev Contents := FileId → ℕ → UInt8

/-- The contents with `data` stored in a file at an offset. -/
def Contents.store (c : Contents) (id : FileId) (offset : ℕ) (data : List UInt8) : Contents := fun x i =>
  if x = id ∧ offset ≤ i ∧ i < offset + data.length then data.getD (i - offset) 0 else c x i

theorem Contents.store_of_lt {c : Contents} {id : FileId} {offset i : ℕ} {data : List UInt8} (h : i < offset) :
    c.store id offset data id i = c id i := by
  refine if_neg ?_
  rintro ⟨-, hle, -⟩
  omega

/-- `write_file` stores its data at exactly the offset it is given, and no operation panics. -/
structure ImageFs.Stores {σ ε : Type} (fs : ImageFs σ ε) (content : σ → Contents) : Prop where
  writeFile : ∀ id offset data s, (fs.writeFile id offset data).wp
    (fun _ s' => content s' = (content s).store id offset data) (fun _ _ => True) s
  readDirectory : ∀ id s, (fs.readDirectory id).wp (fun _ _ => True) (fun _ _ => True) s
  createDirectory : ∀ dir name s, (fs.createDirectory dir name).wp (fun _ _ => True) (fun _ _ => True) s
  createFile : ∀ name dir s, (fs.createFile name dir).wp (fun _ _ => True) (fun _ _ => True) s

/-- **Copying preserves content**: on every file system that stores what is written to it, copying does not panic,
and after it succeeded the created file has the bytes of the source. -/
def Copies (source : Source) : Prop :=
  ∀ (σ ε : Type) (fs : ImageFs σ ε) (content : σ → Contents) (path : List String) (name : String) (s : σ),
    fs.Stores content → (∀ f, copyFile fs path name source s ≠ .fault f) ∧
      ∀ dirId s₁ fileId s₂ s', getOrMakeDir fs path s = .ok dirId s₁ → fs.createFile name dirId s₁ = .ok fileId s₂ →
        copyFile fs path name source s = .ok () s' → ∀ i b, source.bytes[i]? = some b → content s' fileId i = b

/-! ## What a copy writes -/

section Run
variable {σ ε : Type} {fs : ImageFs σ ε} {content : σ → Contents}

theorem ImageFs.Stores.getOrMakeDirFrom (h : fs.Stores content) {path : List String} {dirId : FileId} {s : σ} :
    (getOrMakeDirFrom fs dirId path).wp (fun _ _ => True) (fun _ _ => True) s := by
  induction path generalizing dirId s with
  | nil => exact trivial
  | cons segment path ih =>
    rw [WasabiOS.getOrMakeDirFrom, wp_bind]
    refine wp_mono (h.readDirectory dirId s) (fun dir s' _ => ?_) fun _ _ _ => trivial
    cases dir.entries.find? fun entry => entry.name = segment with
    | some entry => exact ih
    | none =>
      refine (wp_bind _ _).2 ?_
      exact wp_mono (h.createDirectory _ _ _) (fun _ _ _ => ih) fun _ _ _ => trivial

/-- The first byte of the file is never written: the offset of a write is at least the length of its chunk. -/
theorem ImageFs.Stores.copyChunks_first (h : fs.Stores content) {chunks : List (List UInt8)} {fileId : FileId}
    {offset : ℕ} {s : σ} :
    (copyChunks fs fileId offset chunks).wlp (fun _ s' => content s' fileId 0 = content s fileId 0)
      (fun _ _ => True) s := by
  induction chunks generalizing offset s with
  | nil => exact rfl
  | cons chunk chunks ih =>
    rw [copyChunks, wlp_bind, wlp_lift]
    intro next hnext
    obtain rfl : offset + chunk.length = next := by
      split_ifs at hnext
      exact Except.ok.inj hnext
    by_cases hempty : chunk.length = 0
    · rw [if_pos hempty]
      exact rfl
    · rw [if_neg hempty, wlp_bind, wlp_assert]
      intro _
      rw [wlp_bind]
      refine wlp_mono (wlp_of_wp (h.writeFile _ _ _ s)) (fun _ s' hstored => ?_) fun _ _ _ => trivial
      have hfirst : content s' fileId 0 = content s fileId 0 := by rw [hstored, Contents.store_of_lt (by omega)]
      exact hfirst ▸ ih
end Run

/-! ## A file system in memory -/

/-- A file system that keeps one file, and stores what is written to it. -/
def memoryFs : ImageFs Contents Empty where
  readDirectory _ := return ⟨none, []⟩
  createDirectory _ _ := return FileId.ROOT
  createFile _ _ := return FileId.ROOT
  writeFile id offset data := Prog.modify fun c => c.store id offset data

theorem memoryFs_stores : memoryFs.Stores id where
  writeFile _ _ _ _ := rfl
  readDirectory _ _ := trivial
  createDirectory _ _ _ := trivial
  createFile _ _ _ := trivial

/-- A source that starts with `b`, copied over another first byte: in memory no operation fails, so the copy panics
or it leaves the other byte there. -/
theorem not_copies_of_bytes {source : Source} {b : UInt8} (hb : source.bytes[0]? = some b) : ¬ Copies source := by
  intro hcopies
  let c : Contents := fun _ _ => b + 1
  obtain ⟨hno, hsame⟩ := hcopies Contents Empty memoryFs id [] "" c memoryFs_stores
  have hfirst : (copyFile memoryFs [] "" source).wlp (fun _ s' => s' FileId.ROOT 0 = b + 1) (fun _ _ => True) c :=
    memoryFs_stores.copyChunks_first
  cases hrun : copyFile memoryFs [] "" source c with
  | ok a s' =>
    have hbyte : s' FileId.ROOT 0 = b := hsame FileId.ROOT c FileId.ROOT c s' rfl rfl hrun 0 b hb
    have hkept : s' FileId.ROOT 0 = b + 1 := (wlp_of_ok hrun).1 hfirst
    have hsucc : b + 1 = b := hkept.symm.trans hbyte
    exact absurd hsucc (by simp)
  | err e s' => exact e.elim
  | fault f => exact hno f hrun

/-- **A copy preserves content exactly for the empty source**: what is read is written behind its place, since the
offset moves on before the write. -/
theorem copies_iff {source : Source} : Copies source ↔ source.bytes = [] := by
  constructor
  · intro hcopies
    by_contra hne
    obtain ⟨b, bs, hbytes⟩ := List.exists_cons_of_ne_nil hne
    have hfirst : source.bytes[0]? = some b := by
      rw [hbytes]
      rfl
    exact not_copies_of_bytes hfirst hcopies
  · intro hbytes σ ε fs content path name s hstores
    have hchunks : source.chunks = [] := by
      refine List.eq_nil_iff_forall_not_mem.2 fun chunk hmem => source.nonempty chunk hmem ?_
      exact List.flatten_eq_nil_iff.1 hbytes chunk hmem
    refine ⟨fun f hfault => ?_, fun _ _ _ _ _ _ _ _ i b hi => ?_⟩
    · have hrun : (copyFile fs path name source).wp (fun _ _ => True) (fun _ _ => True) s := by
        rw [copyFile, wp_bind]
        refine wp_mono hstores.getOrMakeDirFrom (fun dirId s₁ _ => ?_) fun _ _ _ => trivial
        rw [wp_bind]
        refine wp_mono (hstores.createFile _ _ _) (fun fileId s₂ _ => ?_) fun _ _ _ => trivial
        rw [hchunks]
        exact trivial
      rw [Prog.wp, hfault] at hrun
      exact hrun
    · rw [hbytes, List.getElem?_nil] at hi
      exact absurd hi (Option.some_ne_none b).symm

private theorem oneByte_nonempty : ∀ chunk ∈ [[(7 : UInt8)]], chunk ≠ [] := by decide

private theorem oneByte_bounded : ∀ chunk ∈ [[(7 : UInt8)]], chunk.length ≤ MAX_BUFFER := by decide

/-- A source of one byte, read at once. -/
def oneByte : Source := ⟨[[7]], oneByte_nonempty, oneByte_bounded⟩

/-- Over a file that holds zeros, the byte lands at offset one and the first byte stays zero. -/
theorem not_copies_oneByte : ¬ Copies oneByte := not_copies_of_bytes (b := 7) rfl
end WasabiOS
