import WasabiOS.Wfs.MemTree.Insert

/-!
# Wfs/MemTree/Rebalance — which neighbours are rebalanced

`get_children_for_rebalance` tries, in turn, to take a file from a neighbour and to merge with it,
first among the leaves in memory.  A neighbour that is too large to merge with has a file to spare, so
among the attempts that load what is missing one succeeds.
-/

open Machinery Prog Machinery.Keyed
namespace WasabiOS
open Store Child List
variable {α : Type} {V : FileView α} {s0 s : Store (Disk Block)} {r a : Addr} {ptr : Option (DevicePointer .treeNode)}
  {rl l d dc : Bool} {c x y : Child α} {pre post cs cs' : List (Child α)} {i : ℕ}

/-! ## The second of two neighbours -/

namespace NodeRoot
variable {ε : Type} {b : Addr} {E : ε → Store (Disk Block) → Prop} {Q : MemTreeLink → Store (Disk Block) → Prop}

/-- The second neighbour in focus. -/
theorem second (H : NodeRoot V s0 s ptr r rl l d dc (pre ++ x :: y :: post)) :
    NodeRoot V s0 s ptr r rl l d dc ((pre ++ [x]) ++ y :: post) := append_cons .. ▸ H

theorem first (H : NodeRoot V s0 s ptr r rl l d dc ((pre ++ [x]) ++ y :: post)) :
    NodeRoot V s0 s ptr r rl l d dc (pre ++ x :: y :: post) := append_cons .. ▸ H

theorem getLink (H : NodeRoot V s0 s ptr r rl l d dc (pre ++ c :: post)) :
    (getLink (.child r pre.length) : Prog (Store (Disk Block)) ε _).wp Q E s ↔
      Q c.link s := by
  obtain ⟨children, hr, hchildren⟩ := H.node
  simp [wp_getLink_child hr, hchildren, entry]

theorem getLink_second (H : NodeRoot V s0 s ptr r rl l d dc (pre ++ x :: y :: post)) :
    (Store.getLink (.child r (pre.length + 1)) : Prog (Store (Disk Block)) ε _).wp Q E s ↔
      Q y.link s := by
  simpa using H.second.getLink (Q := Q) (E := E)

theorem getMax {Q : Option FileId → Store (Disk Block) → Prop}
    (H : NodeRoot V s0 s ptr r rl l d dc (pre ++ c :: post)) :
    (getMax r pre.length : Prog (Store (Disk Block)) ε _).wp Q E s ↔ Q c.max s := by
  obtain ⟨children, hr, hchildren⟩ := H.node
  simp [wp_getMax hr, hchildren, entry]

section
variable (H : NodeRoot V s0 s ptr r rl l d dc (pre ++ x :: y :: post))
include H

theorem getMax_second {Q : Option FileId → Store (Disk Block) → Prop} :
    (Store.getMax r (pre.length + 1) : Prog (Store (Disk Block)) ε _).wp Q E s ↔ Q y.max s := by
  simpa using H.second.getMax (Q := Q) (E := E)

theorem resolve_second [BlockLayout] {E : FsError → Store (Disk Block) → Prop} {Q : Addr → Store (Disk Block) → Prop}

    (hQ : ∀ b s', (∀ e, y.link.node = some e → e = b) →
      NodeRoot V s0 s' ptr r rl l d dc (pre ++ x :: y.placed b :: post) → Q b s') :
    (Store.resolve (.child r (pre.length + 1)) (some r)).wp Q E s := by
  simpa using H.second.resolve (E := E) fun b s' hb H' => hQ b s' hb H'.first
end
end NodeRoot

/-! ## Loading children -/

/-- `c'` is `c`, which may have been loaded. -/
structure Child.Reloaded {α : Type} (c c' : Child α) : Prop where
  forget : c'.forget = c.forget
  kept : ∀ a, c.link.node = some a → c'.link.node = some a

namespace Child.Reloaded
variable {c' c'' x' y' : Child α}

theorem refl (c : Child α) : Reloaded c c := ⟨rfl, fun _ h => h⟩

theorem files (h : Reloaded c c') : c'.files = c.files := by rw [← forget_files, h.forget, forget_files]

theorem locked (h : Reloaded c c') : c'.locked = c.locked := by rw [← forget_locked, h.forget, forget_locked]

theorem trans (h : Reloaded c c') (h' : Reloaded c' c'') : Reloaded c c'' :=
  ⟨h'.forget.trans h.forget, fun a ha => h'.kept a (h.kept a ha)⟩

theorem placed (h : ∀ b, c.link.node = some b → b = a) : Reloaded c (c.placed a) :=
  ⟨rfl, fun b hb => congrArg some (h b hb).symm⟩

theorem refl_list (cs : List (Child α)) : List.Forall₂ Reloaded cs cs := forall₂_same.2 fun c _ => refl c

theorem trans_list {cs'' : List (Child α)} (h : List.Forall₂ Reloaded cs cs')
    (h' : List.Forall₂ Reloaded cs' cs'') : List.Forall₂ Reloaded cs cs'' := by
  induction h generalizing cs'' with
  | nil => cases h'; exact .nil
  | cons h _ ih => cases h' with | cons h' hs' => exact .cons (h.trans h') (ih hs')

/-- Two neighbours were loaded. -/
theorem trans_pair (h : List.Forall₂ Reloaded cs (pre ++ x :: y :: post)) (hx : Reloaded x x')
    (hy : Reloaded y y') : List.Forall₂ Reloaded cs (pre ++ x' :: y' :: post) :=
  trans_list h (rel_append (refl_list pre) (.cons hx (.cons hy (refl_list post))))

section
variable (h : List.Forall₂ Reloaded cs cs')
include h

theorem map_forget : cs'.map Child.forget = cs.map Child.forget := by
  induction h with
  | nil => rfl
  | cons h _ ih => rw [map_cons, map_cons, h.forget, ih]

theorem length_eq : cs'.length = cs.length := by simpa using congrArg List.length (map_forget h)

theorem unlocked (hl : ∀ c ∈ cs, c.locked = false) : ∀ c ∈ cs', c.locked = false := by
  intro c hc
  have hmem : c.forget ∈ cs.map Child.forget := map_forget h ▸ mem_map_of_mem hc
  obtain ⟨e, he, hec⟩ := mem_map.1 hmem
  rw [← Child.forget_locked, ← hec, Child.forget_locked]
  exact hl e he

theorem node_eq (ha : (cs[i]?.bind fun c => c.link.node) = some a) : (cs'[i]?.bind fun c => c.link.node) = some a := by
  induction h generalizing i with
  | nil => simp at ha
  | cons h _ ih =>
    rcases i with _ | i
    · exact h.kept a ha
    · exact ih ha
end
end Child.Reloaded

/-! ## One attempt -/

namespace NodeRoot
variable [BlockLayout] {b : Addr} {x' y' : Child α} {Q : Option Store.ChildrenForRebalance → Store (Disk Block) → Prop}
  {E : FsError → Store (Disk Block) → Prop} {load : Bool} {P : Prop} {mode : Store.DeleteRebalanceMode}
  -- `P` is when the attempt fits; what was to be loaded is loaded
  (hyes : P → ∀ x' y' a b s', x.Reloaded x' → y.Reloaded y' → x'.link.node = some a →
    y'.link.node = some b → NodeRoot V s0 s' ptr r rl l d dc
      (pre ++ x'.withLock true :: y'.withLock true :: post) → Q (some ⟨a, b, pre.length, mode⟩) s')
  (hno : (load = true → ¬ P) → ∀ x' y' s', x.Reloaded x' → y.Reloaded y' →
    NodeRoot V s0 s' ptr r rl l d dc (pre ++ x' :: y' :: post) → Q none s')
  (hx : x.locked = false) (hy : y.locked = false)

include hyes hno hx hy

omit [BlockLayout] in
/-- Two neighbours are locked if they are in memory and the attempt fits them. -/
theorem lockPair {fits : MemTreeNode → MemTreeNode → Bool}
    (hfits : ∀ m n : MemTreeNode, m.len = x.files.length → n.len = y.files.length →
      m.cap = LEAVE_MAX_FILE_COUNT → n.cap = LEAVE_MAX_FILE_COUNT → (fits m n = true ↔ P))
    (hx' : x.Reloaded x') (hy' : y.Reloaded y')
    (H : NodeRoot V s0 s ptr r rl l d dc (pre ++ x' :: y' :: post))
    (hload : load = true → x'.link.node ≠ none ∧ y'.link.node ≠ none) :
    (lockPair x'.link.node y'.link.node fits pre.length mode).wp Q E s := by
  rcases ha : x'.link.node with _ | a
  · exact hno (fun h => absurd ha (hload h).1) x' y' s hx' hy' H
  rcases hb : y'.link.node with _ | b
  · exact hno (fun h => absurd hb (hload h).2) x' y' s hx' hy' H
  obtain ⟨fx, hfx, hfilesx, -⟩ := H.child.leave ha
  obtain ⟨fy, hfy, hfilesy, -⟩ := H.second.child.leave hb
  have hiff := hfits (.leave (some r) fx x'.dirty x'.locked) (.leave (some r) fy y'.dirty y'.locked)
    (by simp [StaticVec.len, ← hx'.files, ← hfilesx]) (by simp [StaticVec.len, ← hy'.files, ← hfilesy])
    rfl rfl
  simp only [Store.lockPair, wp_bind, Store.wp_deref, hfx, hfy, Option.some.injEq,
    exists_eq_left']
  split_ifs with hf
  · simp only [wp_bind, wp_pure]
    exact H.lockChild ha (hx'.locked.trans hx) fun s1 H1 => H1.second.lockChild hb (hy'.locked.trans hy)
      fun s2 H2 => hyes (hiff.1 hf) x' y' a b s2 hx' hy' ha hb H2.first
  · exact hno (fun _ hP => hf (hiff.2 hP)) x' y' s hx' hy' H

section
variable (H : NodeRoot V s0 s ptr r rl l d dc (pre ++ x :: y :: post))
include H

/-- The attempt to merge two neighbours. -/
theorem tryMerge (hP : P ↔ x.files.length + y.files.length ≤ LEAVE_MAX_FILE_COUNT) (hmode : mode = .merge pre.length)
    (i : ℕ) : (tryVariant r i (.merge pre.length (pre.length + 1)) load).wp Q E s := by
  subst hmode
  have hfits : ∀ m n : MemTreeNode, m.len = x.files.length → n.len = y.files.length →
      m.cap = LEAVE_MAX_FILE_COUNT → n.cap = LEAVE_MAX_FILE_COUNT →
      (decide (m.len + n.len ≤ m.cap) = true ↔ P) := by
    intro m n hm hn hmc _
    rw [hm, hn, hmc, decide_eq_true_eq, hP]
  rcases load with _ | _
  · simp only [tryVariant, Bool.false_eq_true, if_false, wp_bind, H.getLink, H.getLink_second]
    exact lockPair hyes hno hx hy hfits (.refl x) (.refl y) H Bool.noConfusion
  · simp only [Store.tryVariant, if_true, wp_bind]
    refine H.resolve fun a s1 ha H1 => H1.resolve_second fun b s2 hb H2 => ?_
    simp only [H2.getLink, H2.getLink_second]
    exact lockPair hyes hno hx hy hfits (.placed ha) (.placed hb) H2 fun _ => by simp [placed]

/-- The attempt to take from the right neighbour of `x`. -/
theorem tryTakeFromRight (hP : P ↔ LEAVE_MAX_FILE_COUNT / 2 < y.files.length) (hmode : mode = .takeFromRight)
    (ha : x.link.node = some a) : (tryVariant r pre.length .takeFromRight load).wp Q E s := by
  subst hmode
  have hfits : ∀ m n : MemTreeNode, m.len = x.files.length → n.len = y.files.length →
      m.cap = LEAVE_MAX_FILE_COUNT → n.cap = LEAVE_MAX_FILE_COUNT →
      (decide (n.len > n.cap / 2) = true ↔ P) := by
    intro m n _ hn _ hnc
    rw [hn, hnc, decide_eq_true_eq, hP]
  rcases load with _ | _
  · simp only [tryVariant, Bool.false_eq_true, if_false, wp_bind, H.getLink, H.getLink_second, ha, expect_some, wp_pure]
    rw [← ha]
    exact lockPair hyes hno hx hy hfits (.refl x) (.refl y) H Bool.noConfusion
  · simp only [Store.tryVariant, if_true, wp_bind]
    refine H.resolve_second fun b s2 hb H2 => ?_
    simp only [H2.getLink, H2.getLink_second, ha, expect_some, wp_pure]
    rw [← ha]
    exact lockPair hyes hno hx hy hfits (.refl x) (.placed hb) H2 fun _ => by simp [placed, ha]

/-- The attempt to take from the left neighbour of `y`. -/
theorem tryTakeFromLeft (hP : P ↔ LEAVE_MAX_FILE_COUNT / 2 < x.files.length) (hmode : mode = .takeFromLeft)
    (hb : y.link.node = some b) : (tryVariant r (pre.length + 1) .takeFromLeft load).wp Q E s := by
  subst hmode
  have hfits : ∀ m n : MemTreeNode, m.len = x.files.length → n.len = y.files.length →
      m.cap = LEAVE_MAX_FILE_COUNT → n.cap = LEAVE_MAX_FILE_COUNT →
      (decide (m.len > m.cap / 2) = true ↔ P) := by
    intro m n hm _ hmc _
    rw [hm, hmc, decide_eq_true_eq, hP]
  rcases load with _ | _
  · simp only [tryVariant, Bool.false_eq_true, if_false, wp_bind, Nat.add_sub_cancel, H.getLink, H.getLink_second]
    rcases ha : x.link.node with _ | a
    · exact hno Bool.noConfusion x y s (.refl x) (.refl y) H
    simp only [hb, wp_bind, expect_some, wp_pure]
    rw [← ha, ← hb]
    exact lockPair hyes hno hx hy hfits (.refl x) (.refl y) H Bool.noConfusion
  · simp only [Store.tryVariant, if_true, wp_bind, Nat.add_sub_cancel]
    refine H.resolve fun a s2 ha H2 => ?_
    have hlock := lockPair (E := E) hyes hno hx hy hfits (.placed ha) (.refl y) H2 fun _ => by simp [placed, hb]
    simpa only [H2.getLink, H2.getLink_second, placed, hb, wp_bind, expect_some, wp_pure] using hlock
end
end NodeRoot

/-! ## All attempts -/

section Variants
open Store (RebalanceVariants DeleteRebalanceMode ChildrenForRebalance)
variable {n : ℕ} {Q : ChildrenForRebalance → Store (Disk Block) → Prop}

/-- How many files the child at an index has. -/
def Child.sizeAt {α : Type} (cs : List (Child α)) (i : ℕ) : ℕ := (cs.map fun c => c.files.length).getD i 0

/-- The children a variant looks at are there. -/
def Applicable (n i : ℕ) : RebalanceVariants → Prop
  | .merge l r => r = l + 1 ∧ r < n ∧ (i = l ∨ i = r)
  | .takeFromRight => i + 1 < n
  | .takeFromLeft => 0 < i ∧ i < n

/-- A variant can be done with leaves of these sizes. -/
def VariantFits (size : ℕ → ℕ) (i : ℕ) : RebalanceVariants → Prop
  | .merge l r => size l + size r ≤ LEAVE_MAX_FILE_COUNT
  | .takeFromRight => LEAVE_MAX_FILE_COUNT / 2 < size (i + 1)
  | .takeFromLeft => LEAVE_MAX_FILE_COUNT / 2 < size (i - 1)

/-- What a mode promises of the neighbours at `k` and `k + 1`, of these sizes. -/
def ModeFits (i k left right : ℕ) : DeleteRebalanceMode → Prop
  | .takeFromRight => i = k ∧ LEAVE_MAX_FILE_COUNT / 2 < right
  | .takeFromLeft => i = k + 1 ∧ LEAVE_MAX_FILE_COUNT / 2 < left
  | .merge l => l = k ∧ (i = k ∨ i = k + 1) ∧ left + right ≤ LEAVE_MAX_FILE_COUNT

/-- The neighbours `x` and `y` to rebalance the child at `i` with. -/
structure Paired {α : Type} (i : ℕ) (cs : List (Child α)) (result : ChildrenForRebalance)
    (pre : List (Child α)) (x y : Child α) (post : List (Child α)) : Prop where
  same : List.Forall₂ Child.Reloaded cs (pre ++ x :: y :: post)
  left : x.link.node = some result.left
  right : y.link.node = some result.right
  leftIndex : result.leftIndex = pre.length
  mode : ModeFits i pre.length x.files.length y.files.length result.mode

theorem Child.sizeAt_eq (h : List.Forall₂ Reloaded cs cs') : sizeAt cs' = sizeAt cs := by
  have hmap := congrArg (List.map fun c : Child α => c.files.length) (Reloaded.map_forget h)
  rw [map_map, map_map] at hmap
  funext i
  exact congrArg (fun l : List ℕ => l.getD i 0) hmap

theorem Child.sizeAt_focus : sizeAt (pre ++ c :: post) pre.length = c.files.length := by simp [sizeAt]

theorem Child.sizeAt_second : sizeAt (pre ++ x :: y :: post) (pre.length + 1) = y.files.length := by simp [sizeAt]

theorem exists_pair {β : Type} {l : List β} {k : ℕ} (h : k + 1 < l.length) :
    ∃ pre x y post, l = pre ++ x :: y :: post ∧ pre.length = k := by
  obtain ⟨pre, rest, hlen, hl⟩ := split_at (getElem?_eq_getElem (Nat.lt_of_succ_lt h))
  rcases rest with _ | ⟨y, post⟩
  · rw [hl, length_append, hlen] at h
    simp at h
  · exact ⟨pre, _, y, post, hl, hlen⟩

namespace NodeRoot
variable [BlockLayout] {i : ℕ} {E : FsError → Store (Disk Block) → Prop}

/-- One attempt locks a fitting pair, or leaves the tree as it is; if it loads, it fails only where it
does not fit. -/
theorem tryVariant {Q : Option ChildrenForRebalance → Store (Disk Block) → Prop}
    (H : NodeRoot V s0 s ptr r rl l d dc cs') (hcs : List.Forall₂ Child.Reloaded cs cs')
    (hunlocked : ∀ c ∈ cs, c.locked = false) (ha : (cs[i]?.bind fun c => c.link.node) = some a)
    (v : RebalanceVariants) (load : Bool) (hv : Applicable cs.length i v)
    (hyes : ∀ result s' pre x y post, Paired i cs result pre x y post →
      NodeRoot V s0 s' ptr r rl l d dc (pre ++ x.withLock true :: y.withLock true :: post) →
      Q (some result) s')
    (hno : (load = true → ¬ VariantFits (sizeAt cs) i v) → ∀ cs' s',
      List.Forall₂ Child.Reloaded cs cs' → NodeRoot V s0 s' ptr r rl l d dc cs' → Q none s') :
    (tryVariant r i v load).wp Q E s := by
  have ha' := Child.Reloaded.node_eq hcs ha
  have hunlocked' := Child.Reloaded.unlocked hcs hunlocked
  have hsize := sizeAt_eq hcs
  have hlen := Child.Reloaded.length_eq hcs
  have hpair : ∀ {pre x y post} mode, List.Forall₂ Child.Reloaded cs (pre ++ x :: y :: post) →
      ModeFits i pre.length x.files.length y.files.length mode → ∀ x' y' a b s', x.Reloaded x' →
      y.Reloaded y' → x'.link.node = some a → y'.link.node = some b → NodeRoot V s0 s' ptr r rl l d dc
        (pre ++ x'.withLock true :: y'.withLock true :: post) → Q (some ⟨a, b, pre.length, mode⟩) s' :=
    fun {pre _ _ post} _ hcs hmode x' y' _ _ s' hx hy ha hb H' => hyes _ s' pre x' y' post
      ⟨Child.Reloaded.trans_pair hcs hx hy, ha, hb, rfl, by rwa [hx.files, hy.files]⟩ H'
  have hnone : ∀ {pre x y post}, List.Forall₂ Child.Reloaded cs (pre ++ x :: y :: post) →
      (load = true → ¬ VariantFits (sizeAt cs) i v) → ∀ x' y' s', x.Reloaded x' → y.Reloaded y' →
      NodeRoot V s0 s' ptr r rl l d dc (pre ++ x' :: y' :: post) → Q none s' :=
    fun hcs hfits _ _ s' hx hy => hno hfits _ s' (Child.Reloaded.trans_pair hcs hx hy)
  rcases v with ⟨k, k'⟩ | _ | _
  · obtain ⟨rfl, hlt, hi⟩ := hv
    obtain ⟨pre, x, y, post, rfl, rfl⟩ := exists_pair (hlen ▸ hlt)
    have hP : VariantFits (sizeAt cs) i (.merge pre.length (pre.length + 1)) ↔
        x.files.length + y.files.length ≤ LEAVE_MAX_FILE_COUNT := by
      rw [VariantFits, ← hsize, sizeAt_focus, sizeAt_second]
    exact tryMerge (fun hfits => hpair (.merge pre.length) hcs ⟨rfl, hi, hP.1 hfits⟩) (hnone hcs) (hunlocked' x (by simp))
      (hunlocked' y (by simp)) H hP rfl i
  · obtain ⟨pre, x, y, post, rfl, rfl⟩ := exists_pair (k := i) (hlen ▸ hv)
    have hP : VariantFits (sizeAt cs) pre.length .takeFromRight ↔ LEAVE_MAX_FILE_COUNT / 2 < y.files.length := by
      rw [VariantFits, ← hsize, sizeAt_second]
    exact tryTakeFromRight (fun hfits => hpair .takeFromRight hcs ⟨rfl, hP.1 hfits⟩) (hnone hcs)
      (hunlocked' x (by simp)) (hunlocked' y (by simp)) H hP rfl (by simpa using ha')
  · obtain ⟨k, rfl⟩ : ∃ k, i = k + 1 := Nat.exists_eq_succ_of_ne_zero hv.1.ne'
    obtain ⟨pre, x, y, post, rfl, rfl⟩ := exists_pair (k := k) (hlen ▸ hv.2)
    have hP : VariantFits (sizeAt cs) (pre.length + 1) .takeFromLeft ↔ LEAVE_MAX_FILE_COUNT / 2 < x.files.length := by
      rw [VariantFits, ← hsize, Nat.add_sub_cancel, sizeAt_focus]
    exact tryTakeFromLeft (fun hfits => hpair .takeFromLeft hcs ⟨rfl, hP.1 hfits⟩) (hnone hcs)
      (hunlocked' x (by simp)) (hunlocked' y (by simp)) H hP rfl (by simpa using ha')

/-- Attempts that cannot all fail find a pair. -/
theorem tryVariants (hunlocked : ∀ c ∈ cs, c.locked = false) (ha : (cs[i]?.bind fun c => c.link.node) = some a)
    (hyes : ∀ result s' pre x y post, Paired i cs result pre x y post →
      NodeRoot V s0 s' ptr r rl l d dc (pre ++ x.withLock true :: y.withLock true :: post) →
      Q result s') :
    ∀ (vs : List (RebalanceVariants × Bool)) (cs' : List (Child α)) (s : Store (Disk Block)),
      (∀ v ∈ vs, Applicable cs.length i v.1) →
      ¬ (∀ v ∈ vs, v.2 = true → ¬ VariantFits (sizeAt cs) i v.1) →
      List.Forall₂ Child.Reloaded cs cs' → NodeRoot V s0 s ptr r rl l d dc cs' →
      (tryVariants r i vs).wp Q E s
  | [], _, _, _, hfail, _, _ => absurd (by simp) hfail
  | (v, load) :: vs, cs', s, hvs, hfail, hcs, H => by
    simp only [Store.tryVariants, wp_bind]
    refine H.tryVariant hcs hunlocked ha v load (hvs (v, load) mem_cons_self) ?_ ?_
    · exact hyes
    · intro hfits cs'' s' hcs' H'
      refine tryVariants hunlocked ha hyes vs cs'' s'
        (fun w hw => hvs w (mem_cons_of_mem _ hw)) (fun hall => hfail fun w hw => ?_) hcs' H'
      rcases mem_cons.1 hw with rfl | hw
      · exact hfits
      · exact hall w hw
end NodeRoot

theorem toCheck_last (h0 : i ≠ 0) (hlast : i = n - 1) : toCheck i n =
    [(.takeFromLeft, false), (.merge (i - 1) i, false), (.merge (i - 1) i, true), (.takeFromLeft, true)] := by
  rw [toCheck, if_neg h0, if_pos hlast]

theorem applicable_toCheck (hn : 2 ≤ n) (hi : i < n) : ∀ v ∈ toCheck i n, Applicable n i v.1 := by
  by_cases hlast : i ≠ 0 ∧ i = n - 1
  · simp only [toCheck_last hlast.1 hlast.2, forall_mem_cons, Applicable, or_true, and_true]
    refine ⟨?_, ?_, ?_, ?_, by simp⟩ <;> omega
  · have hright : i + 1 < n := by omega
    simp only [toCheck]
    split_ifs with h0 h1
    · simp only [forall_mem_cons, Applicable, true_or, and_true, true_and]
      refine ⟨?_, ?_, ?_, ?_, by simp⟩ <;> omega
    · exact absurd ⟨h0, h1⟩ hlast
    · simp only [forall_mem_cons, Applicable, or_true, true_or, and_true, true_and]
      refine ⟨?_, ?_, ?_, ?_, ?_, ?_, ?_, ?_, by simp⟩ <;> omega

/-- A neighbour that is too large to merge with has a file to spare. -/
theorem toCheck_not_all_fail {size : ℕ → ℕ} (hsize : size i < LEAVE_MAX_FILE_COUNT / 2) :
    ¬ ∀ v ∈ toCheck i n, v.2 = true → ¬ VariantFits size i v.1 := by
  intro hall
  simp only [LEAVE_MAX_FILE_COUNT] at hsize
  by_cases hlast : i ≠ 0 ∧ i = n - 1
  · rw [toCheck_last hlast.1 hlast.2] at hall
    have hmerge : ¬ VariantFits size i (.merge (i - 1) i) := hall (_, true) (by simp) rfl
    have htake : ¬ VariantFits size i .takeFromLeft := hall (_, true) (by simp) rfl
    simp only [VariantFits, LEAVE_MAX_FILE_COUNT] at hmerge htake
    omega
  · have hmem : (RebalanceVariants.merge i (i + 1), true) ∈ toCheck i n ∧
        (RebalanceVariants.takeFromRight, true) ∈ toCheck i n := by
      simp only [toCheck]
      split_ifs with h0 h1
      · simp
      · exact absurd ⟨h0, h1⟩ hlast
      · simp
    have hmerge : ¬ VariantFits size i (.merge i (i + 1)) := hall _ hmem.1 rfl
    have htake : ¬ VariantFits size i .takeFromRight := hall _ hmem.2 rfl
    simp only [VariantFits, LEAVE_MAX_FILE_COUNT] at hmerge htake
    omega

/-- **`get_children_for_rebalance`** returns two locked neighbours and a mode that fits them. -/
theorem NodeRoot.childrenForRebalance [BlockLayout] {E : MemTreeError → Store (Disk Block) → Prop}
    (H : NodeRoot V s0 s ptr r rl l d dc (pre ++ c :: post)) (ha : c.link.node = some a)
    (hunlocked : ∀ e ∈ pre ++ c :: post, e.locked = false) (htwo : 2 ≤ (pre ++ c :: post).length)
    (hsize : c.files.length < LEAVE_MAX_FILE_COUNT / 2)
    (hQ : ∀ result s' pre' x y post', Paired pre.length (pre ++ c :: post) result pre' x y post' →
      NodeRoot V s0 s' ptr r rl l d dc (pre' ++ x.withLock true :: y.withLock true :: post') →
      Q result s') :
    (childrenForRebalance r a).wp Q E s := by
  obtain ⟨children, hr, hchildren⟩ := H.node
  have hlen : children.len = (pre ++ c :: post).length := by rw [StaticVec.len, hchildren, length_map]
  have hidx : children.toList.findIdx? (fun e => e.1.node = some a) = some pre.length := by
    rw [hchildren]
    exact Children.findIdx?_node H.distinct ha
  have hi : pre.length < (pre ++ c :: post).length := by simp
  simp only [Store.childrenForRebalance, wp_bind, wp_attempt,
    Store.getChildrenForRebalance, Store.wp_deref, hr, Option.some.injEq, exists_eq_left',
    wp_assert, hidx, expect_some, wp_pure, hlen]
  refine ⟨by simp, by simpa using htwo, ?_⟩
  refine NodeRoot.tryVariants hunlocked (by simpa using ha) hQ _ _ _ (applicable_toCheck htwo hi)
    (toCheck_not_all_fail ?_) (Child.Reloaded.refl_list _) H
  rw [sizeAt_focus]
  exact hsize
end Variants
end WasabiOS
