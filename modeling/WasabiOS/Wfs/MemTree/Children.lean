import WasabiOS.Machinery.KeyedList
import WasabiOS.Wfs.MemTree.Memory

/-!
# Wfs/MemTree/Children — the leaves below an inner node

The children of an inner node whose children are leaves, as a list: link, separator, files.  The
separators cut the ids into ranges, and the files of a leave lie in its range (`Chained`).  Each
change an insert or a delete makes to neighbouring leaves is a lemma about `Chained` from the first
changed leave on; `chained_append` puts the unchanged ones before it back.

`α` is what a file stands for, `key` its id.
-/

open Machinery Machinery.Keyed
namespace WasabiOS
open List Option

/-- A child of an inner node: the link and the largest id its parent stores, and the leave behind
the link. -/
structure Child (α : Type) where
  link : MemTreeLink
  max : Option FileId
  files : List α
  dirty : Bool
  locked : Bool

namespace Child
variable {α : Type} {a a' b b' d : Child α} {x : α}

/-- What the parent stores. -/
def entry (c : Child α) : MemTreeLink × Option FileId := (c.link, c.max)

/-- The files of all children, in order. -/
def entries (cs : List (Child α)) : List α := cs.flatMap files

@[simp] theorem entries_nil : entries ([] : List (Child α)) = [] := rfl

@[simp] theorem entries_cons (c : Child α) (cs : List (Child α)) : entries (c :: cs) = c.files ++ entries cs := rfl

@[simp] theorem entries_append (cs ds : List (Child α)) :
    entries (cs ++ ds) = entries cs ++ entries ds := flatMap_append

variable (key : α → FileId)

/-- The files of every child are above `lo` and the separators before it and not above its own, and
exactly the last child has none. -/
def Chained : (lo : ℕ) → List (Child α) → Prop
  | _, [] => False
  | lo, c :: cs =>
    (∀ f ∈ c.files, lo < (key f).get ∧ key f ≤ c.max.getD FileId.MAX) ∧
      match c.max with
      | none => cs = []
      | some m => lo < m.get ∧ Chained m.get cs

/-- `Chained` for children that are followed by others. -/
def ChainedBefore : (lo : ℕ) → List (Child α) → Prop
  | _, [] => True
  | lo, c :: cs => ∃ m, c.max = some m ∧ lo < m.get ∧
      (∀ f ∈ c.files, lo < (key f).get ∧ key f ≤ m) ∧ ChainedBefore m.get cs

/-- The largest separator of children that are followed by others, `lo` without any. -/
def floor : (lo : ℕ) → List (Child α) → ℕ
  | lo, [] => lo
  | lo, c :: cs => floor (c.max.elim lo FileId.get) cs

/-- The bounds on the files of a leave below the root. -/
structure Fits (c : Child α) : Prop where
  sorted : Sorted key c.files
  half : LEAVE_MAX_FILE_COUNT / 2 ≤ c.files.length
  le_max : c.files.length ≤ LEAVE_MAX_FILE_COUNT

/-- The children of an inner root: their files fit and lie in the ranges of the separators, and none
is locked. -/
structure Valid (cs : List (Child α)) : Prop where
  chained : Chained key 0 cs
  fits : ∀ c ∈ cs, c.Fits key
  two_le : 2 ≤ cs.length
  unlocked : ∀ c ∈ cs, c.locked = false

variable {key} {lo : ℕ} {c d : Child α} {cs pre post : List (Child α)} {f : α} {id : FileId}

theorem chained_cons_some {m : FileId} (h : c.max = some m) : Chained key lo (c :: cs) ↔
    (∀ f ∈ c.files, lo < (key f).get ∧ key f ≤ m) ∧ lo < m.get ∧ Chained key m.get cs := by
  simp only [Chained, h, getD_some]

theorem chained_cons_none (h : c.max = none) : Chained key lo (c :: cs) ↔
    (∀ f ∈ c.files, lo < (key f).get) ∧ cs = [] := by
  simp only [Chained, h, getD_none, FileId.le_MAX, and_true]

theorem Chained.mono {lo' : ℕ} (h : Chained key lo cs) (hle : lo' ≤ lo) : Chained key lo' cs := by
  rcases cs with _ | ⟨c, cs⟩
  · exact h
  · refine ⟨fun f hf => ⟨hle.trans_lt (h.1 f hf).1, (h.1 f hf).2⟩, ?_⟩
    rcases hm : c.max with _ | m
    · exact ((chained_cons_none hm).1 h).2
    · have := (chained_cons_some hm).1 h
      exact ⟨hle.trans_lt this.2.1, this.2.2⟩

theorem Chained.lt (h : Chained key lo cs) (hf : f ∈ entries cs) : lo < (key f).get := by
  induction cs generalizing lo with
  | nil => exact h.elim
  | cons c cs ih =>
    rcases mem_append.1 (entries_cons c cs ▸ hf) with hf | hf
    · exact (h.1 f hf).1
    · rcases hm : c.max with _ | m
      · obtain ⟨-, rfl⟩ := (chained_cons_none hm).1 h
        simp at hf
      · obtain ⟨-, hlo, hcs⟩ := (chained_cons_some hm).1 h
        exact hlo.trans (ih hcs hf)

section
variable (h : ChainedBefore key lo pre)
include h

theorem ChainedBefore.le_floor : lo ≤ floor lo pre := by
  induction pre generalizing lo with
  | nil => exact le_rfl
  | cons c pre ih =>
    obtain ⟨m, hm, hlo, -, hpre⟩ := h
    simp only [floor, hm, elim_some]
    exact hlo.le.trans (ih hpre)

theorem ChainedBefore.entry_le (hf : f ∈ entries pre) : (key f).get ≤ floor lo pre := by
  induction pre generalizing lo with
  | nil => simp at hf
  | cons c pre ih =>
    obtain ⟨m, hm, -, hfiles, hpre⟩ := h
    simp only [floor, hm, elim_some]
    rcases mem_append.1 (entries_cons c pre ▸ hf) with hf | hf
    · exact le_trans (FileId.le_def.1 (hfiles f hf).2) hpre.le_floor
    · exact ih hpre hf

/-- The separators of children that are followed by others. -/
theorem ChainedBefore.max_le (hd : d ∈ pre) : ∃ m, d.max = some m ∧ m.get ≤ floor lo pre := by
  induction pre generalizing lo with
  | nil => cases hd
  | cons c pre ih =>
    obtain ⟨m, hm, -, -, hpre⟩ := h
    simp only [floor, hm, elim_some]
    rcases mem_cons.1 hd with rfl | hd
    · exact ⟨m, hm, hpre.le_floor⟩
    · exact ih hpre hd
end

/-- A chain can be cut before any child. -/
theorem chained_append : Chained key lo (pre ++ c :: cs) ↔
    ChainedBefore key lo pre ∧ Chained key (floor lo pre) (c :: cs) := by
  induction pre generalizing lo with
  | nil => simp [ChainedBefore, floor]
  | cons d pre ih =>
    rw [cons_append]
    rcases hm : d.max with _ | m
    · simp [chained_cons_none hm, ChainedBefore, hm]
    · rw [chained_cons_some hm, ih]
      simp only [ChainedBefore, floor, hm, elim_some, Option.some.injEq, exists_eq_left']
      tauto

/-! ## Routing -/

/-- The first child whose separator is not below `id` exists, and the separators before it are
below. -/
theorem Chained.route (h : Chained key lo cs) (hid : lo < id.get) : ∃ pre c post, cs = pre ++ c :: post ∧
      (cs.map entry).findIdx? (fun e => id ≤ e.2.getD FileId.MAX) = some pre.length ∧
      floor lo pre < id.get ∧ id ≤ c.max.getD FileId.MAX := by
  induction cs generalizing lo with
  | nil => exact h.elim
  | cons c cs ih =>
    by_cases hle : id ≤ c.max.getD FileId.MAX
    · exact ⟨[], c, cs, rfl, by simp [findIdx?_cons, entry, hle], hid, hle⟩
    · -- a child without a separator would have been taken
      rcases hm : c.max with _ | m
      · exact absurd (hm ▸ FileId.le_MAX id) hle
      · obtain ⟨-, -, hcs⟩ := (chained_cons_some hm).1 h
        have hmid : m.get < id.get := by simpa [hm, FileId.lt_def] using hle
        obtain ⟨pre, d, post, rfl, hidx, hfloor, hd⟩ := ih hcs hmid
        refine ⟨c :: pre, d, post, rfl, ?_, by simpa [floor, hm] using hfloor, hd⟩
        rw [map_cons, findIdx?_cons, hidx]
        simp [entry, hle]

section
variable (h : Chained key lo (c :: post))
include h

theorem Chained.lt_after (hid : id ≤ c.max.getD FileId.MAX) (hf : f ∈ entries post) : id < key f := by
  rcases hm : c.max with _ | m
  · obtain ⟨-, rfl⟩ := (chained_cons_none hm).1 h
    simp at hf
  · rw [hm, getD_some] at hid
    exact hid.trans_lt (FileId.lt_def.2 (((chained_cons_some hm).1 h).2.2.lt hf))

/-! ## Changing neighbours -/

theorem Chained.setFiles (hmax : d.max = c.max) (hd : ∀ f ∈ d.files, lo < (key f).get ∧ key f ≤ c.max.getD FileId.MAX) :
    Chained key lo (d :: post) := by
  refine ⟨hmax ▸ hd, ?_⟩
  rw [hmax]
  exact h.2

/-- A leave is split at the separator `s`; the right half ends at `n`. -/
theorem Chained.split {l r : Child α} {s n : FileId}
    (hl : l.max = some s) (hr : r.max = if post = [] then none else some n)
    (hlf : ∀ f ∈ l.files, lo < (key f).get ∧ key f ≤ s) (hrf : ∀ f ∈ r.files, s < key f ∧ key f ≤ n)
    (hs : lo < s.get) (hsn : s < n) (hn : n ≤ c.max.getD FileId.MAX) :
    Chained key lo (l :: r :: post) := by
  refine (chained_cons_some hl).2 ⟨hlf, hs, ?_⟩
  rcases hm : c.max with _ | m
  · obtain ⟨-, rfl⟩ := (chained_cons_none hm).1 h
    exact (chained_cons_none (by simpa using hr)).2 ⟨fun f hf => (hrf f hf).1, rfl⟩
  · obtain ⟨-, -, hpost⟩ := (chained_cons_some hm).1 h
    have hne : post ≠ [] := by rintro rfl; exact hpost
    rw [hm, getD_some] at hn
    exact (chained_cons_some (by simpa [hne] using hr)).2
      ⟨fun f hf => ⟨(hrf f hf).1, (hrf f hf).2⟩, hsn, hpost.mono hn⟩
end

section
variable (h : Chained key lo (a :: b :: post))
include h

/-- The first file of the right leave moves to the left one. -/
theorem Chained.takeFromRight {rest : List α} (hb : b.files = x :: rest) (hsorted : Sorted key b.files)
    (hrest : rest ≠ []) (hamax : a'.max = some (key x)) (hbmax : b'.max = b.max)
    (ha' : a'.files = a.files ++ [x]) (hb' : b'.files = rest) :
    Chained key lo (a' :: b' :: post) := by
  rcases hm : a.max with _ | m
  · exact absurd ((chained_cons_none hm).1 h).2 (by simp)
  obtain ⟨haf, hlo, hbpost⟩ := (chained_cons_some hm).1 h
  have hxm : m.get < (key x).get := (hbpost.1 x (by simp [hb])).1
  have hgt : ∀ f ∈ rest, key x < key f := (sorted_cons.1 (hb ▸ hsorted)).1
  refine (chained_cons_some hamax).2 ⟨?_, by omega, ?_⟩
  · intro f hf
    rw [ha', mem_append, mem_singleton] at hf
    rcases hf with hf | rfl
    · exact ⟨(haf f hf).1, le_trans (haf f hf).2 hxm.le⟩
    · exact ⟨by omega, le_rfl⟩
  · refine ⟨fun f hf => ⟨hgt f (hb' ▸ hf), hbmax ▸ (hbpost.1 f ?_).2⟩, ?_⟩
    · rw [hb]; exact mem_cons_of_mem _ (hb' ▸ hf)
    obtain ⟨y, hy⟩ := exists_mem_of_ne_nil rest hrest
    rw [hbmax]
    rcases hbm : b.max with _ | n
    · exact ((chained_cons_none hbm).1 hbpost).2
    · obtain ⟨hbf, -, hpost⟩ := (chained_cons_some hbm).1 hbpost
      have hyn := (hbf y (by simp [hb, hy])).2
      exact ⟨(FileId.lt_def.1 (hgt y hy)).trans_le hyn, hpost⟩

/-- The last file of the left leave moves to the right one; `y` is the last that stays. -/
theorem Chained.takeFromLeft {y : α} {init : List α} (ha : a.files = init ++ [x]) (hsorted : Sorted key a.files)
    (hy : y ∈ init) (hle : ∀ f ∈ init, key f ≤ key y) (hamax : a'.max = some (key y))
    (hbmax : b'.max = b.max) (ha' : a'.files = init) (hb' : b'.files = x :: b.files) :
    Chained key lo (a' :: b' :: post) := by
  rcases hm : a.max with _ | m
  · exact absurd ((chained_cons_none hm).1 h).2 (by simp)
  obtain ⟨haf, hlo, hbpost⟩ := (chained_cons_some hm).1 h
  have hyx : (key y).get < (key x).get := (sorted_append.1 (ha ▸ hsorted)).2.2 y hy x (mem_singleton_self x)
  have hxm : (key x).get ≤ m.get := (haf x (by simp [ha])).2
  refine (chained_cons_some hamax).2 ⟨fun f hf => ⟨(haf f ?_).1, hle f (ha' ▸ hf)⟩, ?_, ?_⟩
  · rw [ha]; exact mem_append_left _ (ha' ▸ hf)
  · exact (haf y (by rw [ha]; exact mem_append_left _ hy)).1
  · refine Chained.setFiles (hbpost.mono (hyx.le.trans hxm)) hbmax fun f hf => ?_
    rw [hb', mem_cons] at hf
    rcases hf with rfl | hf
    · refine ⟨hyx, ?_⟩
      rcases hbm : b.max with _ | n
      · exact FileId.le_MAX _
      · exact le_trans hxm ((chained_cons_some hbm).1 hbpost).2.1.le
    · exact ⟨(hyx.trans_le hxm).trans (hbpost.1 f hf).1, (hbpost.1 f hf).2⟩

/-- Two neighbours become one leave. -/
theorem Chained.merge (hfiles : d.files = a.files ++ b.files) (hmax : d.max = b.max) :
    Chained key lo (d :: post) := by
  rcases hm : a.max with _ | m
  · exact absurd ((chained_cons_none hm).1 h).2 (by simp)
  obtain ⟨haf, hlo, hbpost⟩ := (chained_cons_some hm).1 h
  refine Chained.setFiles (hbpost.mono hlo.le) hmax fun f hf => ?_
  rw [hfiles, mem_append] at hf
  rcases hf with hf | hf
  · refine ⟨(haf f hf).1, ?_⟩
    rcases hbm : b.max with _ | n
    · exact FileId.le_MAX _
    · exact le_trans (haf f hf).2 ((chained_cons_some hbm).1 hbpost).2.1.le
  · exact ⟨hlo.trans (hbpost.1 f hf).1, (hbpost.1 f hf).2⟩
end

/-! ## Where the leaves are -/

/-- The child, wherever its leave is in memory. -/
def forget (c : Child α) : Child α := { c with link := { c.link with node := none } }

@[simp] theorem forget_max (c : Child α) : c.forget.max = c.max := rfl
@[simp] theorem forget_files (c : Child α) : c.forget.files = c.files := rfl
@[simp] theorem forget_locked (c : Child α) : c.forget.locked = c.locked := rfl

theorem chained_map_forget : Chained key lo (cs.map forget) ↔ Chained key lo cs := by
  induction cs generalizing lo with
  | nil => rfl
  | cons c cs ih =>
    rcases hm : c.max with _ | m
    · rw [map_cons, chained_cons_none hm, chained_cons_none (c := c.forget) hm, map_eq_nil_iff]
      rfl
    · rw [map_cons, chained_cons_some hm, chained_cons_some (c := c.forget) hm, ih]
      rfl

theorem entries_map_forget : entries (cs.map forget) = entries cs := by simp only [entries, flatMap_map, forget_files]

/-! ## Valid children -/

section
variable (hv : Valid key (pre ++ c :: post))
include hv

theorem Valid.tail : Chained key (floor 0 pre) (c :: post) := (chained_append.1 hv.chained).2

/-- The children from one on are exchanged. -/
theorem Valid.splice {post' : List (Child α)} (hchained : Chained key (floor 0 pre) (d :: post'))
    (hnew : ∀ e ∈ d :: post', e.Fits key ∧ e.locked = false)
    (htwo : 2 ≤ (pre ++ d :: post').length) : Valid key (pre ++ d :: post') where
  chained := chained_append.2 ⟨(chained_append.1 hv.chained).1, hchained⟩
  fits e he := (mem_append.1 he).elim (fun he => hv.fits e (mem_append_left _ he)) fun he => (hnew e he).1
  two_le := htwo
  unlocked e he := (mem_append.1 he).elim (fun he => hv.unlocked e (mem_append_left _ he)) fun he => (hnew e he).2

/-- One child is exchanged for one with other files in its range. -/
theorem Valid.setFiles (hmax : d.max = c.max) (hfits : d.Fits key) (hunlocked : d.locked = false)
    (hd : ∀ f ∈ d.files, floor 0 pre < (key f).get ∧ key f ≤ c.max.getD FileId.MAX) :
    Valid key (pre ++ d :: post) := by
  refine hv.splice (hv.tail.setFiles hmax hd) (fun e he => ?_) (by simpa using hv.two_le)
  rcases mem_cons.1 he with rfl | he
  · exact ⟨hfits, hunlocked⟩
  · have hmem : e ∈ pre ++ c :: post := mem_append_right _ (mem_cons_of_mem _ he)
    exact ⟨hv.fits e hmem, hv.unlocked e hmem⟩
end
end Child
end WasabiOS
