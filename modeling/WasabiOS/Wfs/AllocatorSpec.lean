import WasabiOS.Machinery.IntervalList
import WasabiOS.Machinery.KeyedList
import WasabiOS.Wfs.BlockAllocator

/-!
# Wfs/AllocatorSpec — what one call does to the set of free blocks

The free list is a list of intervals; it is consistent exactly if it is `Separated`, and `freeBlockSet`
is the set it covers.  One specification per operation, in terms of that set:

* `allocateGroup_wlp` — a group of the free set, taken out of it, or an error if no group is large
  enough,
* `allocate_wlp` — the same for powers of two, and an error for every other count,
* `insertFreed_spec` — a freed group comes back if a free group ends right before it or starts
  after it, and the list stays consistent if none starts right behind it; `insertFreed_lost` — and is
  lost otherwise.
-/

open Machinery Prog
namespace WasabiOS
open BlockGroup LBA Finset
namespace BlockAllocator
variable {g : BlockGroup} {size : ℕ} {lba : LBA} {l1 l2 : List BlockGroup} {a : BlockAllocator}
  {a a' : BlockAllocator} {freed g r x : BlockGroup} {l : List BlockGroup} {Q : Unit → BlockAllocator → Prop}
  {b count : ℕ} {E : ε → BlockAllocator → Prop} {ε : Type}

/-- The free list is in order, with a block that is not free between any two groups. -/
abbrev Separated (l : List BlockGroup) : Prop := IntervalList.Separated (fun g : BlockGroup => g.start.get) past l

/-- The blocks of a list of groups. -/
abbrev cover (l : List BlockGroup) : Finset ℕ := IntervalList.cover (fun g : BlockGroup => g.start.get) past l

/-- The set of free blocks. -/
def freeBlockSet (a : BlockAllocator) : Finset ℕ := cover a.free

theorem cover_cons : cover (g :: l) = g.blocks ∪ cover l := rfl

theorem mem_cover_cons : b ∈ cover (g :: l) ↔ (g.start.get ≤ b ∧ b < g.past) ∨ b ∈ cover l := by
  rw [cover_cons, mem_union, mem_blocks]

theorem separated_cons : Separated (g :: l) ↔ (∀ b ∈ cover l, g.past < b) ∧ Separated l :=
  IntervalList.separated_cons start_lt_past

/-- **`check_consistent` accepts exactly the separated lists.**  Where neighbours are separated, the
end of the first is an address, so the check does not overflow. -/
theorem groupsConsistent_eq_true : ∀ {l : List BlockGroup}, groupsConsistent l = .ok true ↔ Separated l
  | [] => iff_of_true rfl IntervalList.separated_nil
  | [g] => iff_of_true rfl (List.pairwise_singleton _ g)
  | g :: h :: rest => by
    rw [Separated, IntervalList.separated_cons_cons start_lt_past]
    have ih := groupsConsistent_eq_true (l := h :: rest)
    have hlt := h.start.get_lt
    unfold groupsConsistent
    cases ha : g.start.add g.count with
    | error f =>
      refine iff_of_false (fun e => by cases e) fun hgap => ?_
      rw [add_ok (lt_trans hgap.1 hlt)] at ha
      cases ha
    | ok p =>
      have hp : p.get = g.past := add_eq_ok.1 ha
      change (if p < h.start then groupsConsistent (h :: rest) else .ok false) = .ok true ↔ _
      have hgap_iff : p < h.start ↔ g.past < h.start.get := by rw [lt_def, hp]
      by_cases hgap : g.past < h.start.get
      · rw [if_pos (hgap_iff.2 hgap), ih, and_iff_right hgap]
      · rw [if_neg (hgap ∘ hgap_iff.1)]
        exact iff_of_false (fun e => by cases e) fun hs => hgap hs.1

theorem checkConsistent_eq_true : a.checkConsistent = .ok true ↔ Separated a.free := groupsConsistent_eq_true

/-- The assertion passes exactly on a separated list. -/
@[simp] theorem wlp_assertConsistent : Prog.wlp assertConsistent Q E a ↔ (Separated a.free → Q () a) := by
  rw [← checkConsistent_eq_true]
  simp only [assertConsistent, wlp_bind, wlp_get, wlp_lift, wlp_assert]
  exact ⟨fun h hb => h true hb rfl, fun h b hb e => h (e ▸ hb)⟩

@[simp] theorem wp_assertConsistent : Prog.wp assertConsistent Q E a ↔ Separated a.free ∧ Q () a := by
  rw [← checkConsistent_eq_true]
  simp only [assertConsistent, wp_bind, wp_get, wp_lift, wp_assert]
  constructor
  · rintro ⟨b, hb, rfl, hQ⟩
    exact ⟨hb, hQ⟩
  · rintro ⟨hb, hQ⟩
    exact ⟨true, hb, rfl, hQ⟩

theorem assertConsistent_eq_ok {u : Unit} :
    (assertConsistent : Prog BlockAllocator ε Unit) a = .ok u a' ↔ Separated a.free ∧ a' = a := by
  rw [← checkConsistent_eq_true]
  simp only [assertConsistent, bind_ok_iff, get_apply, Outcome.ok.injEq, lift_eq_ok, assert_eq_ok]
  constructor
  · rintro ⟨_, _, ⟨rfl, rfl⟩, b, _, ⟨hb, rfl⟩, rfl, rfl⟩
    exact ⟨hb, rfl⟩
  · rintro ⟨hb, rfl⟩
    exact ⟨a', a', ⟨rfl, rfl⟩, true, a', ⟨hb, rfl⟩, rfl, rfl⟩

/-! ## Allocation -/

/-- **The group that fits best**: of the smallest with room for `size` blocks, the first. -/
structure FitsBest (size : ℕ) (l1 : List BlockGroup) (g : BlockGroup) (l2 : List BlockGroup) : Prop where
  room : size ≤ g.count
  before : ∀ x ∈ l1, size ≤ x.count → g.count < x.count
  after : ∀ x ∈ l2, size ≤ x.count → g.count ≤ x.count

/-- What the scan returns is the group that fits best, or the best one so far. -/
theorem bestGroup_eq_some : ∀ {l : List BlockGroup} {i : ℕ} {best : Option (ℕ × ℕ)}
    {j rem : ℕ}, bestGroup size l i best = some (j, rem) →
      (best = some (j, rem) ∧ ∀ x ∈ l, size ≤ x.count → size + rem ≤ x.count) ∨
      ∃ l1 g l2, l = l1 ++ g :: l2 ∧ j = i + l1.length ∧ g.count = size + rem ∧ FitsBest size l1 g l2 ∧
        ∀ b ∈ best, rem < b.2
  | [], _, _, _, _, h => .inl ⟨h, List.forall_mem_nil _⟩
  | g :: gs, i, best, j, rem, h => by
    -- the group is passed over: it has no room, or the result is smaller
    have hpass : ∀ {best : Option (ℕ × ℕ)}, (∃ l1 g' l2, gs = l1 ++ g' :: l2 ∧ j = i + 1 + l1.length ∧
        g'.count = size + rem ∧ FitsBest size l1 g' l2 ∧ ∀ b ∈ best, rem < b.2) →
        (size ≤ g.count → size + rem < g.count) →
        ∃ l1 g' l2, g :: gs = l1 ++ g' :: l2 ∧ j = i + l1.length ∧ g'.count = size + rem ∧
          FitsBest size l1 g' l2 ∧ ∀ b ∈ best, rem < b.2 := by
      rintro best ⟨l1, g', l2, rfl, rfl, hcount, hfits, hbest⟩ hg
      refine ⟨g :: l1, g', l2, rfl, by simp only [List.length_cons]; omega, hcount,
        ⟨hfits.room, fun x hx hroom => ?_, hfits.after⟩, hbest⟩
      rcases List.mem_cons.1 hx with rfl | hx
      · exact hcount ▸ hg hroom
      · exact hfits.before x hx hroom
    unfold bestGroup at h
    split_ifs at h with hlt hbest
    · rcases bestGroup_eq_some h with ⟨hsame, hmin⟩ | hnew
      · exact .inl ⟨hsame, List.forall_mem_cons.2 ⟨fun hroom => absurd hroom (by omega), hmin⟩⟩
      · exact .inr (hpass hnew fun hroom => absurd hroom (by omega))
    · rw [Option.all_eq_true] at hbest
      rcases bestGroup_eq_some h with ⟨hsame, hmin⟩ | hnew
      · cases hsame
        refine .inr ⟨[], g, gs, rfl, rfl, by omega, ⟨by omega, List.forall_mem_nil _,
          fun x hx hroom => ?_⟩, fun b hb => of_decide_eq_true (hbest b hb)⟩
        have := hmin x hx hroom
        omega
      · obtain ⟨-, -, -, -, -, -, -, hrem⟩ := id hnew
        have hrem : rem < g.count - size := hrem _ rfl
        obtain ⟨l1, g', l2, hl, hj, hcount, hfits, -⟩ := hpass hnew fun _ => by omega
        exact .inr ⟨l1, g', l2, hl, hj, hcount, hfits, fun b hb => hrem.trans (of_decide_eq_true (hbest b hb))⟩
    · obtain ⟨b, rfl, hb⟩ : ∃ b, best = some b ∧ b.2 ≤ g.count - size := by
        cases best with
        | none => simp at hbest
        | some b => exact ⟨b, rfl, by simpa using hbest⟩
      rcases bestGroup_eq_some h with ⟨hsame, hmin⟩ | hnew
      · cases hsame
        exact .inl ⟨rfl, List.forall_mem_cons.2 ⟨fun _ => by omega, hmin⟩⟩
      · obtain ⟨-, -, -, -, -, -, -, hrem⟩ := id hnew
        have hrem : rem < b.2 := hrem _ rfl
        exact .inr (hpass hnew fun _ => by omega)

/-- The scan returns nothing exactly if no group has room. -/
theorem bestGroup_eq_none : ∀ {l : List BlockGroup} {i : ℕ} {best : Option (ℕ × ℕ)},
    bestGroup size l i best = none ↔ best = none ∧ ∀ g ∈ l, g.count < size
  | [], _, _ => by simp [bestGroup]
  | g :: gs, i, best => by
    unfold bestGroup
    split_ifs with hlt hbest
    · rw [bestGroup_eq_none]
      simp [hlt]
    · rw [bestGroup_eq_none]
      simp [hlt]
    · rw [bestGroup_eq_none]
      cases best with
      | none => simp at hbest
      | some b => simp

/-- `size` blocks of a consistent list are taken out of it, as the group `r`. -/
structure Taken (size : ℕ) (l : List BlockGroup) (r : BlockGroup) (l' : List BlockGroup) : Prop where
  count : r.count = size
  subset : r.blocks ⊆ cover l
  separated : Separated l'
  cover_eq : cover l' = cover l \ r.blocks
  length_le : l'.length ≤ l.length

/-- The groups `m` take the place of the group `g`, of which they leave out `r`. -/
theorem Taken.intro {m : List BlockGroup}
    (h : Separated (l1 ++ g :: l2)) (hsub : r.blocks ⊆ g.blocks) (hsep : Separated m)
    (hin : ∀ x ∈ m, g.start.get ≤ x.start.get ∧ x.past ≤ g.past)
    (hm : cover m = g.blocks \ r.blocks) (hlen : m.length ≤ 1) :
    Taken r.count (l1 ++ g :: l2) r (l1 ++ (m ++ l2)) where
  count := rfl
  subset b hb := by
    obtain ⟨hlo, hhi⟩ := mem_blocks.1 (hsub hb)
    exact IntervalList.mem_cover.2 ⟨g, by simp, hlo, hhi⟩
  separated := h.replace hsep hin
  cover_eq := h.cover_replace hsub hm
  length_le := by
    simp only [List.length_append, List.length_cons]
    omega

theorem taken_whole (h : Separated (l1 ++ g :: l2)) : Taken g.count (l1 ++ g :: l2) g (l1 ++ l2) :=
  Taken.intro h (Finset.Subset.refl _) IntervalList.separated_nil nofun (Finset.sdiff_self _).symm (by simp)

theorem taken_front (h : Separated (l1 ++ g :: l2)) (hr : r.start = g.start)
    (hx : x.start.get = g.start.get + r.count) (hcount : g.count = r.count + x.count) :
    Taken r.count (l1 ++ g :: l2) r (l1 ++ x :: l2) := by
  have hpast : r.past = x.start.get := by rw [past, hr, hx]
  have hxpast : x.past = g.past := by rw [past, past]; omega
  have hxlt := x.start_lt_past
  refine Taken.intro h (fun b hb => ?_) (List.pairwise_singleton _ x) ?_ ?_ (by simp)
  · rw [mem_blocks] at hb ⊢
    rw [hr] at hb
    omega
  · intro y hy
    obtain rfl := List.mem_singleton.1 hy
    omega
  · ext b
    rw [mem_cover_cons, mem_sdiff, mem_blocks, mem_blocks, hr]
    simp only [IntervalList.cover_nil, notMem_empty, or_false]
    omega

/-- The front of a group can be cut off: it is the whole group, or the rest starts at an address. -/
def CutsAt (size : ℕ) (g : BlockGroup) : Prop := g.count = size ∨ g.start.get + size < u64Size - 1

instance (size : ℕ) (g : BlockGroup) : Decidable (CutsAt size g) :=
  inferInstanceAs (Decidable (g.count = size ∨ g.start.get + size < u64Size - 1))

/-- **Allocating a group**: it is cut off the front of the group that fits best, unless no group is large
enough. -/
theorem allocateGroup_apply (hsize : 1 ≤ size) (hc : Separated a.free) :
    ((∀ g ∈ a.free, g.count < size) ∧ allocateGroup size a = .err (.noConsecutiveFreeBlocks size) a) ∨
    ∃ l1 g l2, a.free = l1 ++ g :: l2 ∧ FitsBest size l1 g l2 ∧
      (CutsAt size g → ∃ r l', r.start = g.start ∧ Taken size a.free r l' ∧
        allocateGroup size a = .ok r { a with free := l', dirty := true }) ∧
      (¬ CutsAt size g → allocateGroup size a = .fault .panic) := by
  unfold allocateGroup
  rw [decide_eq_true hsize, assert_true, pure_bind, bind_apply, get_apply, andThen_ok]
  cases hb : bestGroup size a.free 0 none with
  | none => exact .inl ⟨(bestGroup_eq_none.1 hb).2, rfl⟩
  | some p =>
    obtain ⟨i, rem⟩ := p
    obtain ⟨l1, g, l2, hl, rfl, hcount, hfits, -⟩ :=
      (bestGroup_eq_some hb).resolve_left fun h => absurd h.1.symm (by simp)
    have hsep := hl ▸ hc
    refine .inr ⟨l1, g, l2, hl, hfits, ?_⟩
    simp only [hl, zero_add, List.getElem?_append_right le_rfl, Nat.sub_self,
      List.getElem?_cons_zero, expect_some, pure_bind, eraseIdx_append_cons, List.set_append_right _ _ le_rfl,
      List.set_cons_zero]
    split_ifs with hrem
    · -- the whole group
      obtain rfl : g.count = size := by omega
      exact ⟨fun _ => ⟨g, l1 ++ l2, rfl, taken_whole hsep, rfl⟩, fun h => absurd (.inl rfl) h⟩
    · have hlt := g.count_lt
      let r : BlockGroup := ⟨g.start, size, hsize, by omega⟩
      have hr : withCount g.start size = .ok r := withCount_eq_ok.2 ⟨rfl, rfl⟩
      rw [hr, lift_ok, pure_bind]
      constructor
      · rintro (hwhole | haddr)
        · omega
        · let x : BlockGroup := ⟨⟨g.start.get + size, haddr⟩, rem, by omega, by omega⟩
          have hx : withCount ⟨g.start.get + size, haddr⟩ rem = .ok x := withCount_eq_ok.2 ⟨rfl, rfl⟩
          have htaken : Taken size (l1 ++ g :: l2) r (l1 ++ x :: l2) :=
            taken_front (r := r) (x := x) hsep rfl rfl hcount
          refine ⟨r, l1 ++ x :: l2, rfl, htaken, ?_⟩
          rw [add_ok haddr, lift_ok, pure_bind, hx, lift_ok, pure_bind, bind_apply, put_apply, andThen_ok]
          exact bind_ok_iff.2 ⟨(), _, assertConsistent_eq_ok.2 ⟨htaken.separated, rfl⟩, rfl⟩
      · intro hcut
        rw [LBA.add, dif_neg fun h => hcut (.inr h)]
        rfl

theorem allocateGroup_wlp (hc : Separated a.free) : (allocateGroup size).wlp
      (fun r a' => ∃ l', a' = { a with free := l', dirty := true } ∧ Taken size a.free r l')
      (fun e a' => e = .noConsecutiveFreeBlocks size ∧ a' = a ∧ ∀ g ∈ a.free, g.count < size)
      a := by
  by_cases hsize : 1 ≤ size
  · unfold Prog.wlp
    rcases allocateGroup_apply hsize hc with ⟨hsmall, happly⟩ | ⟨l1, g, l2, -, -, hcut, hpanic⟩
    · rw [happly]
      exact ⟨rfl, rfl, hsmall⟩
    · by_cases h : CutsAt size g
      · obtain ⟨r, l', -, htaken, happly⟩ := hcut h
        rw [happly]
        exact ⟨l', rfl, htaken⟩
      · rw [hpanic h]
        trivial
  · unfold allocateGroup
    rw [decide_eq_false hsize]
    trivial

/-- All groups lie in the address space. -/
def Addressable (l : List BlockGroup) : Prop := ∀ g ∈ l, g.Valid

/-- On groups of the address space allocation does not fault. -/
theorem allocateGroup_no_fault (hsize : 1 ≤ size) (hc : Separated a.free) (hv : Addressable a.free) :
    (allocateGroup size).wp (fun _ _ => True) (fun _ _ => True) a := by
  unfold Prog.wp
  rcases allocateGroup_apply hsize hc with ⟨-, happly⟩ | ⟨l1, g, l2, hl, hfits, hcut, -⟩
  · rw [happly]
    trivial
  · have hvalid : g.start.get + g.count < u64Size := hv g (hl ▸ List.mem_append_cons_self)
    have hroom := hfits.room
    obtain ⟨r, l', -, -, happly⟩ := hcut (by unfold CutsAt; omega)
    rw [happly]
    trivial

/-- **Allocating a group**, from groups of the address space. -/
theorem allocateGroup_wp (hsize : 1 ≤ size) (hc : Separated a.free) (hv : Addressable a.free) :
    (allocateGroup size).wp (fun r a' => ∃ l', a' = { a with free := l', dirty := true } ∧ Taken size a.free r l')
      (fun e a' => e = .noConsecutiveFreeBlocks size ∧ a' = a ∧ ∀ g ∈ a.free, g.count < size) a :=
  wp_of_wlp (allocateGroup_wlp hc) (allocateGroup_no_fault hsize hc hv)

theorem allocateLoop_done {fuel groupSize : ℕ} {groups : List BlockGroup} :
    allocateLoop count (fuel + 1) groups 0 groupSize = pure ⟨groups⟩ := by
  rw [allocateLoop, if_pos rfl]

/-- With more blocks to get than the group size, `allocate` halves its way down to an error. -/
theorem allocateLoop_halve : ∀ {fuel remaining groupSize : ℕ}, groupSize < 2 ^ fuel → groupSize < remaining →
      allocateLoop count (fuel + 1) [] remaining groupSize a = .err (.blockDeviceFull count) a
  | 0, remaining, groupSize, hfuel, hlt => by
    obtain rfl : groupSize = 0 := by omega
    simp [allocateLoop, freeGroups, hlt.ne']
  | fuel + 1, remaining, groupSize, hfuel, hlt => by
    have hrem : remaining ≠ 0 := by omega
    rw [allocateLoop, if_neg hrem]
    split_ifs with hzero
    · simp [freeGroups]
    · exact allocateLoop_halve (by rw [pow_succ] at hfuel; omega) (by omega)

/-- What is allocated is as large as it should be, also if the list is not consistent. -/
theorem allocateGroup_count (hok : allocateGroup size a = .ok r a') : r.count = size := by
  obtain ⟨_, a1, hassert, h⟩ := bind_ok_iff.1 hok
  obtain rfl : a1 = a := (assert_eq_ok.1 hassert).2
  rw [bind_apply, get_apply, andThen_ok] at h
  cases hb : bestGroup size a1.free 0 none with
  | none =>
    rw [hb] at h
    cases h
  | some p =>
    obtain ⟨i, rem⟩ := p
    obtain ⟨l1, g, l2, hl, rfl, hcount, -, -⟩ :=
      (bestGroup_eq_some hb).resolve_left fun h => absurd h.1.symm (by simp)
    rw [hb] at h
    obtain ⟨best, a2, hexpect, h⟩ := bind_ok_iff.1 h
    obtain ⟨hbest, -⟩ := expect_eq_ok.1 hexpect
    obtain rfl : g = best := by
      rw [hl, zero_add, List.getElem?_append_right le_rfl, Nat.sub_self] at hbest
      exact Option.some.inj hbest
    split_ifs at h with hrem
    · obtain ⟨_, _, -, h⟩ := bind_ok_iff.1 h
      cases h
      omega
    · obtain ⟨result, _, hresult, h⟩ := bind_ok_iff.1 h
      obtain ⟨_, _, -, h⟩ := bind_ok_iff.1 h
      obtain ⟨_, _, -, h⟩ := bind_ok_iff.1 h
      obtain ⟨_, _, -, h⟩ := bind_ok_iff.1 h
      obtain ⟨_, _, -, h⟩ := bind_ok_iff.1 h
      cases h
      exact (withCount_eq_ok.1 (lift_eq_ok.1 hresult).1).2

/-- **`allocate` only ever takes one group**: for a power of two it is `allocate_group`, and every
other count is an error that leaves the allocator alone. -/
theorem allocate_apply (hcount : 1 ≤ count) : allocate count a =
      if count = 2 ^ Nat.log2 count then
        match allocateGroup count a with
        | .ok r a' => .ok ⟨[r]⟩ { a' with dirty := true }
        | .err _ a' => .err (.blockDeviceFull count) a'
        | .fault f => .fault f
      else .err (.blockDeviceFull count) a := by
  have hpow (n : ℕ) : count < 2 ^ (count + n) := lt_of_lt_of_le Nat.lt_two_pow_self
    (Nat.pow_le_pow_right (by omega) (by omega))
  have hlog : 2 ^ Nat.log2 count ≤ count := Nat.log2_self_le (by omega)
  have hassert : (assert (decide (1 ≤ count)) : Prog BlockAllocator FsError Unit) = pure () := by
    rw [decide_eq_true hcount, assert_true]
  rw [allocate, hassert, pure_bind]
  split_ifs with h
  · -- the first round takes the group, or finds none and then halves
    rw [← h, bind_apply, allocateLoop, if_neg (by omega), if_neg (by omega), if_neg (by omega), bind_apply]
    cases hg : allocateGroup count a with
    | fault f => rw [attempt_fault hg]; rfl
    | err e a' =>
      rw [attempt_err hg]
      change (allocateLoop count (count + 65) [] count (count / 2) a').andThen _ = _
      rw [allocateLoop_halve (lt_of_le_of_lt (Nat.div_le_self _ _) (hpow 64)) (by omega), Outcome.andThen_err]
    | ok r a' =>
      have hr : r.count = count := allocateGroup_count hg
      rw [attempt_ok hg]
      simp [allocateLoop_done, BlockGroupList.blockCount, hr]
  · rw [bind_apply, allocateLoop_halve (lt_of_le_of_lt hlog (hpow 65)) (by omega), Outcome.andThen_err]

/-- What `allocate` returns is one group, and its size a power of two. -/
theorem allocate_single {list : BlockGroupList} (hcount : 1 ≤ count) (h : allocate count a = .ok list a') :
    count = 2 ^ Nat.log2 count ∧ ∃ r, list = ⟨[r]⟩ ∧ r.count = count := by
  rw [allocate_apply hcount] at h
  split_ifs at h with hpow
  refine ⟨hpow, ?_⟩
  cases hg : allocateGroup count a with
  | ok r a1 =>
    rw [hg] at h
    cases h
    exact ⟨r, rfl, allocateGroup_count hg⟩
  | err e a1 =>
    rw [hg] at h
    cases h
  | fault f =>
    rw [hg] at h
    cases h

/-- A group that is all there is. -/
theorem allocate_whole {onDisk : Option (DevicePointer .freeBlockGroups)} {selfOnDisk : List LBA}
    {dirty : Bool} (hpow : g.count.isPowerOfTwo) :
    allocate g.count ⟨[g], onDisk, selfOnDisk, dirty⟩ = .ok ⟨[g]⟩ ⟨[], onDisk, selfOnDisk, true⟩ := by
  obtain ⟨k, hk⟩ := hpow
  have hlog : g.count = 2 ^ Nat.log2 g.count := by rw [hk, Nat.log2_two_pow]
  have hgroup : allocateGroup g.count ⟨[g], onDisk, selfOnDisk, dirty⟩ = .ok g ⟨[], onDisk, selfOnDisk, true⟩ := by
    have hbest : bestGroup g.count [g] 0 none = some (0, 0) := by
      rw [bestGroup, if_neg (lt_irrefl _), Option.all_none, if_pos rfl, Nat.sub_self]
      rfl
    have hpos : 1 ≤ g.count := g.count_pos
    unfold allocateGroup
    rw [decide_eq_true hpos, assert_true, pure_bind, bind_apply, get_apply, andThen_ok]
    simp only [hbest]
    rfl
  rw [allocate_apply g.count_pos, if_pos hlog, hgroup]

/-- **`allocate`** takes one group out of the free set, or leaves the allocator alone. -/
theorem allocate_wlp (hcount : 1 ≤ count) (hc : Separated a.free) :
    (allocate count).wlp (fun list a' => ∃ r l', list = ⟨[r]⟩ ∧
      a' = { a with free := l', dirty := true } ∧ Taken count a.free r l') (fun _ a' => a' = a) a := by
  unfold Prog.wlp
  rw [allocate_apply hcount]
  have hspec := @allocateGroup_wlp count a hc
  unfold Prog.wlp at hspec
  split_ifs with hpow
  · cases hg : allocateGroup count a with
    | fault f => trivial
    | err e a' =>
      rw [hg] at hspec
      exact hspec.2.1
    | ok r a' =>
      rw [hg] at hspec
      obtain ⟨l', rfl, ht⟩ := hspec
      exact ⟨r, l', rfl, rfl, ht⟩
  · rfl

/-! ## Freeing -/

/-- A free group ends right before `g`, or some free block comes after it. -/
def Anchored (F : Finset ℕ) (g : BlockGroup) : Prop := ∃ b ∈ F, b + 1 = g.start.get ∨ g.start.get < b

instance (F : Finset ℕ) (g : BlockGroup) : Decidable (Anchored F g) := inferInstanceAs (Decidable (∃ b ∈ F, _))

/-- The loop steps over a group that is not past `freed`: it ends before `freed`, and its end is an
address. -/
theorem endLba_of_disjoint (hdisj : Disjoint freed.blocks (cover (g :: l))) (hle : ¬ g.start > freed.start) :
    g.past ≤ freed.start.get ∧ ∃ last : LBA, g.endLba = .ok last ∧ last.get + 1 = g.past := by
  have hpast : g.past ≤ freed.start.get := by
    by_contra hlt
    exact disjoint_left.1 hdisj freed.start_mem_blocks (mem_cover_cons.2 (.inl ⟨not_lt.1 hle, not_le.1 hlt⟩))
  have hstart := g.start_lt_past
  have hlt := freed.start.get_lt
  refine ⟨hpast, ⟨g.past - 1, by omega⟩, endLba_eq_ok.2 ⟨by omega, ?_⟩, ?_⟩
  · change g.past - 1 + 1 = g.past
    omega
  · change g.past - 1 + 1 = g.past
    omega

theorem disjoint_tail (h : Disjoint freed.blocks (cover (g :: l))) : Disjoint freed.blocks (cover l) :=
  disjoint_of_subset_right subset_union_right h

/-- A separated list lies past its first group. -/
theorem past_lt_of_mem (h : Separated (g :: l)) (hb : b ∈ cover l) : g.past < b := (separated_cons.1 h).1 b hb

/-- Blocks from the start of `freed` on that are not its own lie at or past its end. -/
theorem past_le_of_mem (hdisj : Disjoint freed.blocks (cover l)) (hb : b ∈ cover l) (hle : freed.start.get ≤ b) :
    freed.past ≤ b := by
  by_contra hlt
  exact disjoint_left.1 hdisj (mem_blocks.2 ⟨hle, not_le.1 hlt⟩) hb

/-- Where all blocks of `l` come after `freed`, they are separated from it exactly if the block
behind `freed` is none of them. -/
theorem separated_iff_past_notMem
    (hx : x.past = freed.past) (hsep : Separated l) (hdisj : Disjoint freed.blocks (cover l))
    (hle : ∀ b ∈ cover l, freed.start.get ≤ b) : Separated (x :: l) ↔ freed.past ∉ cover l := by
  rw [separated_cons, hx, and_iff_left hsep]
  refine ⟨fun h hmem => lt_irrefl _ (h _ hmem), fun h b hb => ?_⟩
  exact lt_of_le_of_ne (past_le_of_mem hdisj hb (hle b hb)) fun e => h (e ▸ hb)

/-- **A freed group comes back where there is an anchor**, and the list stays consistent exactly if
the block behind the group is not free. -/
theorem insertFreed_spec (hv : freed.Valid) : ∀ {l : List BlockGroup},
    Separated l → Disjoint freed.blocks (cover l) → Anchored (cover l) freed →
      ∃ l', insertFreed freed l = .ok l' ∧ cover l' = cover l ∪ freed.blocks ∧ (Separated l' ↔ freed.past ∉ cover l)
  | [], _, _, hanchor => absurd hanchor (by simp [Anchored])
  | current :: rest, hsep, hdisj, hanchor => by
    unfold insertFreed
    by_cases hgt : current.start > freed.start
    · -- the freed group goes right before `current`
      rw [if_pos hgt]
      refine ⟨freed :: current :: rest, rfl, by rw [cover_cons, union_comm], ?_⟩
      refine separated_iff_past_notMem rfl hsep hdisj fun b hb => ?_
      rcases mem_cover_cons.1 hb with hb | hb
      · exact (lt_def.1 hgt).le.trans hb.1
      · have := past_lt_of_mem hsep hb
        have := current.start_lt_past
        have := lt_def.1 hgt
        omega
    · obtain ⟨hpast, last, hlast, hlast_get⟩ := endLba_of_disjoint hdisj hgt
      have hlt := freed.start.get_lt
      have hnext : last.add 1 = .ok ⟨last.get + 1, by omega⟩ := add_ok _
      rw [if_neg hgt]
      simp only [hlast, hnext, bind, Except.bind, pure, Except.pure, LBA.ext_iff, hlast_get]
      by_cases htouch : current.past = freed.start.get
      · -- `current` grows by the freed group
        have hstart := current.start_lt_past
        have hcount : current.start.get + current.count = freed.start.get := htouch
        have hvalid : freed.start.get + freed.count < u64Size := hv
        let x : BlockGroup := ⟨current.start, current.count + freed.count,
          Nat.add_pos_left current.count_pos _, by omega⟩
        have hx : withCount current.start (current.count + freed.count) = .ok x := withCount_eq_ok.2 ⟨rfl, rfl⟩
        have hxpast : x.past = freed.past := by
          change current.start.get + (current.count + freed.count) = freed.start.get + freed.count
          omega
        have hle : ∀ b ∈ cover rest, freed.start.get ≤ b := fun b hb => htouch ▸ (past_lt_of_mem hsep hb).le
        rw [if_pos htouch, hx]
        refine ⟨x :: rest, rfl, ?_, ?_⟩
        · ext b
          rw [mem_union, mem_cover_cons, mem_cover_cons, mem_blocks, hxpast]
          have hfreed := freed.start_lt_past
          change current.start.get ≤ b ∧ _ ∨ _ ↔ _
          grind
        · rw [separated_iff_past_notMem hxpast hsep.tail (disjoint_tail hdisj) hle, mem_cover_cons]
          have hfreed := freed.start_lt_past
          grind
      · -- `current` stays, further on
        have hbefore : current.past < freed.start.get := lt_of_le_of_ne hpast htouch
        have hfreed := freed.start_lt_past
        have hanchor' : Anchored (cover rest) freed := by
          obtain ⟨b, hb, hor⟩ := hanchor
          refine ⟨b, (mem_cover_cons.1 hb).resolve_left fun hcur => ?_, hor⟩
          omega
        obtain ⟨l', hl', hcover, hiff⟩ := insertFreed_spec hv hsep.tail (disjoint_tail hdisj) hanchor'
        have hlast_lt : freed.start > last := LBA.lt_def.2 (by omega)
        rw [if_neg htouch, if_pos hlast_lt, hl']
        refine ⟨current :: l', rfl, ?_, ?_⟩
        · rw [cover_cons, hcover, cover_cons, union_assoc]
        · have hpast_lt : ∀ b ∈ cover l', current.past < b := by
            intro b hb
            rw [hcover, mem_union, mem_blocks] at hb
            rcases hb with hb | hb
            · exact past_lt_of_mem hsep hb
            · omega
          rw [separated_cons, and_iff_right hpast_lt, hiff, mem_cover_cons]
          refine not_congr ⟨.inr, fun h => h.resolve_left ?_⟩
          omega

/-- **A freed group without an anchor is lost**: the list does not change. -/
theorem insertFreed_lost : ∀ {l : List BlockGroup},
    Disjoint freed.blocks (cover l) → ¬ Anchored (cover l) freed → insertFreed freed l = .ok l
  | [], _, _ => rfl
  | current :: rest, hdisj, hno => by
    have hstart := current.start_lt_past
    have hgt : ¬ current.start > freed.start := fun hgt =>
      hno ⟨_, mem_cover_cons.2 (.inl ⟨le_refl _, hstart⟩), .inr hgt⟩
    obtain ⟨hpast, last, hlast, hlast_get⟩ := endLba_of_disjoint hdisj hgt
    have hlt := freed.start.get_lt
    have hnext : last.add 1 = .ok ⟨last.get + 1, by omega⟩ := add_ok _
    have htouch : current.past ≠ freed.start.get := fun e =>
      hno ⟨last.get, mem_cover_cons.2 (.inl ⟨by omega, by omega⟩), .inl (hlast_get.trans e)⟩
    have hlast_lt : freed.start > last := lt_def.2 (by omega)
    have hrest : insertFreed freed rest = .ok rest := insertFreed_lost (disjoint_tail hdisj) fun ⟨b, hb, hor⟩ =>
        hno ⟨b, mem_cover_cons.2 (.inr hb), hor⟩
    unfold insertFreed
    rw [if_neg hgt]
    simp only [hlast, hnext, bind, Except.bind, pure, Except.pure, LBA.ext_iff, hlast_get]
    rw [if_neg htouch, if_pos hlast_lt, hrest]

/-- A group that can be freed: nothing free right behind it, and an anchor. -/
def Freeable (F : Finset ℕ) (g : BlockGroup) : Prop := g.past ∉ F ∧ Anchored F g

instance (F : Finset ℕ) (g : BlockGroup) : Decidable (Freeable F g) := inferInstanceAs (Decidable (_ ∧ _))

/-- **Freeing a group** that can be freed. -/
theorem freeGroup_wp (hv : g.Valid) (hc : Separated a.free)
    (hdisj : Disjoint g.blocks (cover a.free)) (h : Freeable (cover a.free) g) :
    (freeGroup g : Prog BlockAllocator ε Unit).wp
      (fun _ a' => ∃ l', a' = { a with free := l', dirty := true } ∧ Separated l' ∧
        cover l' = cover a.free ∪ g.blocks) (fun _ _ => False) a := by
  obtain ⟨l', hl', hcover, hiff⟩ := insertFreed_spec hv hc hdisj h.2
  have hsep := hiff.2 h.1
  simp only [freeGroup, wp_bind, wp_get, wp_lift, wp_put, wp_assertConsistent]
  exact ⟨l', hl', hsep, l', rfl, hsep, hcover⟩

/-- **Freeing any other group** is a panic, or loses the group. -/
theorem freeGroup_not_freeable (hv : g.Valid) (hc : Separated a.free) (hdisj : Disjoint g.blocks (cover a.free))
    (h : ¬ Freeable (cover a.free) g) :
    (freeGroup g : Prog BlockAllocator ε Unit).wlp (fun _ a' => a' = { a with dirty := true })
      (fun _ _ => False) a := by
  simp only [freeGroup, wlp_bind, wlp_get, wlp_lift, wlp_put, wlp_assertConsistent]
  intro l hl hsep
  by_cases hanchor : Anchored (cover a.free) g
  · obtain ⟨l', hl', -, hiff⟩ := insertFreed_spec hv hc hdisj hanchor
    obtain rfl : l' = l := Except.ok.inj (hl'.symm.trans hl)
    exact absurd ⟨hiff.1 hsep, hanchor⟩ h
  · obtain rfl : a.free = l := Except.ok.inj ((insertFreed_lost hdisj hanchor).symm.trans hl)
    rfl

theorem freeGroups_single : (freeGroups [g] : Prog BlockAllocator ε Unit) = freeGroup g := bind_pure_unit

/-! ## The empty allocator -/

theorem contains_eq (hpast : g.past < u64Size - 1) : g.contains lba = .ok (decide (lba.get ∈ g.blocks)) := by
  have hpos := g.start_lt_past
  have hlast : g.endLba = .ok ⟨g.past - 1, by omega⟩ :=
    endLba_eq_ok.2 ⟨hpast, Nat.sub_add_cancel (by omega)⟩
  unfold contains
  split_ifs with hle
  · rw [hlast]
    refine congrArg Except.ok (decide_eq_decide.2 ?_)
    rw [mem_blocks, le_def] at *
    show lba.get ≤ g.past - 1 ↔ _
    omega
  · refine congrArg Except.ok (decide_eq_false fun hmem => hle ?_).symm
    exact le_def.2 (mem_blocks.1 hmem).1

/-- Only a group that ends at an address is found to contain a block. -/
theorem contains_eq_true (h : g.contains lba = .ok true) : lba.get ∈ g.blocks ∧ g.past < u64Size - 1 := by
  have hpast : g.past < u64Size - 1 := by
    unfold contains at h
    split_ifs at h with hle
    · obtain ⟨last, hlast, -⟩ := bind_eq_ok.1 h
      exact (endLba_eq_ok.1 hlast).1
    · cases h
  rw [contains_eq hpast] at h
  exact ⟨of_decide_eq_true (Except.ok.inj h), hpast⟩

theorem findGroup_eq_some : ∀ {l : List BlockGroup} {i : ℕ},
    findGroup lba l = .ok (some i) → ∃ g, l[i]? = some g ∧ lba.get ∈ g.blocks ∧ g.past < u64Size - 1
  | [], _, h => by cases h
  | g :: gs, i, h => by
    obtain ⟨b, hg, h⟩ := bind_eq_ok.1 h
    split_ifs at h with hb
    · obtain rfl : 0 = i := Option.some.inj (pure_eq_ok.1 h)
      exact ⟨g, rfl, contains_eq_true (hb ▸ hg)⟩
    · obtain ⟨o, hrest, h⟩ := bind_eq_ok.1 h
      obtain ⟨k, rfl, rfl⟩ := Option.map_eq_some_iff.1 (pure_eq_ok.1 h)
      obtain ⟨g', hg', hmem⟩ := findGroup_eq_some hrest
      exact ⟨g', hg', hmem⟩

/-- The groups `m` are what is left of the group `g` without the block `b`. -/
structure LeftOf (g : BlockGroup) (b : ℕ) (m : List BlockGroup) : Prop where
  separated : Separated m
  inside : ∀ x ∈ m, g.start.get ≤ x.start.get ∧ x.past ≤ g.past
  cover_eq : cover m = g.blocks \ {b}

/-- **The groups a block is taken out of**: four cases, by where in its group the block is. -/
theorem markUsedAt_eq (hmem : lba.get ∈ g.blocks) (hpast : g.past < u64Size - 1) :
    ∃ m, markUsedAt lba (l1 ++ g :: l2) l1.length g = .ok (l1 ++ (m ++ l2)) ∧ LeftOf g lba.get m := by
  obtain ⟨hlo, hhi⟩ := mem_blocks.1 hmem
  have hgpast : g.past = g.start.get + g.count := rfl
  have hlast : g.endLba = .ok ⟨g.past - 1, by omega⟩ :=
    endLba_eq_ok.2 ⟨hpast, Nat.sub_add_cancel (by omega)⟩
  have hset : ∀ x, (l1 ++ g :: l2).set l1.length x = l1 ++ x :: l2 := fun x => by
    rw [List.set_append_right _ _ le_rfl, Nat.sub_self, List.set_cons_zero]
  -- one group that starts and ends where `g` does, but for one block
  have hone : ∀ {x : BlockGroup}, g.start.get ≤ x.start.get → x.past ≤ g.past →
      (∀ b, x.start.get ≤ b ∧ b < x.past ↔ (g.start.get ≤ b ∧ b < g.past) ∧ b ≠ lba.get) →
      LeftOf g lba.get [x] := by
    intro x hstart hend hiff
    refine ⟨List.pairwise_singleton _ x, fun y hy => ?_, ?_⟩
    · obtain rfl := List.mem_singleton.1 hy
      exact ⟨hstart, hend⟩
    · ext b
      rw [mem_cover_cons, mem_sdiff, mem_blocks, mem_singleton, ← hiff]
      exact or_iff_left (notMem_empty b)
  unfold markUsedAt
  split_ifs with hstart hsingle
  · -- the only block of the group
    refine ⟨[], congrArg Except.ok eraseIdx_append_cons, IntervalList.separated_nil, List.forall_mem_nil _, ?_⟩
    ext b
    rw [mem_sdiff, mem_blocks, mem_singleton, hstart]
    simp only [IntervalList.cover_nil, notMem_empty, false_iff]
    omega
  · -- the first block
    have hcount := g.count_lt
    let x : BlockGroup := ⟨⟨g.start.get + 1, by omega⟩, g.count - 1, by omega, by omega⟩
    have hx : withCount ⟨g.start.get + 1, by omega⟩ (g.count - 1) = .ok x := withCount_eq_ok.2 ⟨rfl, rfl⟩
    have hxpast : x.past = g.start.get + 1 + (g.count - 1) := rfl
    refine ⟨[x], ?_, hone (Nat.le_succ _) (by omega) fun b => ?_⟩
    · rw [add_ok (by omega), ok_bind, hx, ok_bind, hset]
      rfl
    · rw [hstart]
      show g.start.get + 1 ≤ b ∧ _ ↔ _
      omega
  · have hne : lba.get ≠ g.start.get := fun e => hstart (LBA.ext e)
    have hcount := g.count_lt
    rw [hlast, ok_bind]
    split_ifs with hend
    · -- the last block
      have hend : lba.get = g.past - 1 := congrArg LBA.get hend
      let x : BlockGroup := ⟨g.start, g.count - 1, by omega, by omega⟩
      have hx : withCount g.start (g.count - 1) = .ok x := withCount_eq_ok.2 ⟨rfl, rfl⟩
      have hxpast : x.past = g.start.get + (g.count - 1) := rfl
      refine ⟨[x], ?_, hone le_rfl (by omega) fun b => ?_⟩
      · rw [hx, ok_bind, hset]
        rfl
      · show g.start.get ≤ b ∧ _ ↔ _
        omega
    · -- a block in between: two groups are left
      have hlt : lba.get < g.past - 1 := by
        have : lba.get ≠ g.past - 1 := fun e => hend (LBA.ext e)
        omega
      let left : BlockGroup := ⟨g.start, lba.get - g.start.get, by omega, by omega⟩
      have hleft : withCount g.start (lba.get - g.start.get) = .ok left := withCount_eq_ok.2 ⟨rfl, rfl⟩
      let right : BlockGroup := ⟨⟨lba.get + 1, by omega⟩, g.past - 1 + 1 - (lba.get + 1), by omega, by omega⟩
      have hright : BlockGroup.new ⟨lba.get + 1, by omega⟩ ⟨g.past - 1, by omega⟩ = .ok right := by
        rw [BlockGroup.new, if_pos (show lba.get + 1 ≤ g.past - 1 + 1 by omega)]
        exact withCount_eq_ok.2 ⟨rfl, rfl⟩
      have hlpast : left.past = g.start.get + (lba.get - g.start.get) := rfl
      have hrpast : right.past = lba.get + 1 + (g.past - 1 + 1 - (lba.get + 1)) := rfl
      refine ⟨[left, right], ?_, ?_, ?_, ?_⟩
      · rw [LBA.dist, if_pos (le_def.2 hlo), ok_bind, hleft, ok_bind,
          add_ok (by omega), ok_bind, hright, ok_bind, hset, insertIdx_append_cons]
        rfl
      · refine List.pairwise_pair.2 ?_
        show left.past < lba.get + 1
        omega
      · refine List.forall_mem_cons.2 ⟨⟨le_rfl, by omega⟩, List.forall_mem_cons.2 ⟨⟨?_, by omega⟩,
          List.forall_mem_nil _⟩⟩
        show g.start.get ≤ lba.get + 1
        omega
      · ext b
        rw [mem_cover_cons, mem_cover_cons, mem_sdiff, mem_blocks, mem_singleton]
        simp only [IntervalList.cover_nil, notMem_empty, or_false]
        show (g.start.get ≤ b ∧ b < left.past ∨ lba.get + 1 ≤ b ∧ b < right.past) ↔ _
        omega

/-- **Marking a block used**, if its group is found. -/
theorem markUsed_of_find (hc : Separated a.free) {i : ℕ} (hfind : findGroup lba a.free = .ok (some i)) :
    ∃ l', markUsed lba a = .ok () { a with free := l' } ∧ Separated l' ∧ cover l' = cover a.free \ {lba.get} := by
  obtain ⟨g, hg, hmem, hpast⟩ := findGroup_eq_some hfind
  obtain ⟨l1, l2, rfl, hl⟩ := split_at hg
  obtain ⟨m, hmark, hleft⟩ : ∃ m, markUsedAt lba (l1 ++ g :: l2) l1.length g = .ok (l1 ++ (m ++ l2)) ∧
      LeftOf g lba.get m := markUsedAt_eq hmem hpast
  rw [← hl] at hmark
  have hsep : Separated (l1 ++ (m ++ l2)) := (hl ▸ hc).replace hleft.separated hleft.inside
  refine ⟨l1 ++ (m ++ l2), ?_, hsep, ?_⟩
  · unfold markUsed
    rw [bind_apply, get_apply, andThen_ok, hfind, lift_ok, pure_bind]
    simp only [hg, expect_some, pure_bind, hmark, lift_ok]
    exact assertConsistent_eq_ok.2 ⟨hsep, rfl⟩
  · rw [hl]
    exact (hl ▸ hc).cover_replace (singleton_subset_iff.2 hmem) hleft.cover_eq

/-- Marking a block used takes exactly that block out of the free set. -/
theorem markUsed_wlp (hc : Separated a.free) : (markUsed lba).wlp
      (fun _ a' => ∃ l', a' = { a with free := l' } ∧ Separated l' ∧
        cover l' = cover a.free \ {lba.get}) (fun _ a' => a' = a) a := by
  rcases hfind : findGroup lba a.free with f | o
  · unfold Prog.wlp markUsed
    rw [bind_apply, get_apply, andThen_ok, hfind]
    trivial
  · cases o with
    | none =>
      unfold Prog.wlp markUsed
      rw [bind_apply, get_apply, andThen_ok, hfind]
      rfl
    | some i =>
      obtain ⟨l', hmark, hsep, hcover⟩ := markUsed_of_find hc hfind
      unfold Prog.wlp
      rw [hmark]
      exact ⟨l', rfl, hsep, hcover⟩

theorem markAllUsed_spec : ∀ {usage : List LBA} {a a' : BlockAllocator}, Separated a.free →
    markAllUsed usage a = .ok a' → ∃ l', a' = { a with free := l' } ∧ Separated l' ∧
        cover l' = cover a.free \ (usage.map LBA.get).toFinset
  | [], a, a', hc, h => by
    obtain rfl := pure_eq_ok.1 h
    exact ⟨a.free, rfl, hc, by simp⟩
  | lba :: rest, a, a', hc, h => by
    have hspec := @markUsed_wlp lba a hc
    unfold Prog.wlp at hspec
    unfold markAllUsed at h
    cases hm : markUsed lba a with
    | fault f => rw [hm] at h; cases h
    | err e a1 => rw [hm] at h; cases h
    | ok u a1 =>
      rw [hm] at h hspec
      obtain ⟨l1, rfl, hsep, hcover⟩ := hspec
      obtain ⟨l', rfl, hsep', hcover'⟩ := markAllUsed_spec hsep h
      refine ⟨l', rfl, hsep', ?_⟩
      rw [hcover', hcover, List.map_cons, List.toFinset_cons, sdiff_sdiff_left, insert_eq]
      rfl

/-- **The empty allocator** has every block below `maxLba` free, except for the initial usage. -/
theorem empty_spec {usage : List LBA} {maxLba : LBA} (h : empty usage maxLba = .ok a) :
    Separated a.free ∧ a.freeBlockSet = Finset.range maxLba.get \ (usage.map LBA.get).toFinset ∧
      a.onDisk = none ∧ a.selfOnDisk = [] := by
  obtain ⟨g, hg, h⟩ := bind_eq_ok.1 h
  obtain ⟨hgs, hcount⟩ := withCount_eq_ok.1 hg
  have hsingle : Separated [g] := List.pairwise_singleton _ g
  obtain ⟨l', rfl, hsep, hcover⟩ := markAllUsed_spec
    (a := { free := [g], onDisk := none, selfOnDisk := [], dirty := true }) hsingle h
  refine ⟨hsep, hcover.trans ?_, rfl, rfl⟩
  have hrange : cover [g] = Finset.range maxLba.get := by
    ext b
    rw [mem_cover_cons, mem_range, past, hgs, hcount]
    simp [LBA.ZERO]
  rw [hrange]

/-! ## The loaded allocator -/

/-- What `load` returns is consistent: it asserts so. -/
theorem load_separated {D : Type} [BlockDevice D Block] {ptr : DevicePointer .freeBlockGroups}
    {d d' : D} (h : load ptr d = .ok a d') : Separated a.free := by
  obtain ⟨⟨free, selfOnDisk⟩, d1, -, h⟩ := bind_ok_iff.1 h
  obtain ⟨b, d2, hb, h⟩ := bind_ok_iff.1 h
  obtain ⟨u, d3, hassert, h⟩ := bind_ok_iff.1 h
  cases h
  obtain ⟨rfl, -⟩ := assert_eq_ok.1 hassert
  exact checkConsistent_eq_true.1 (lift_eq_ok.1 hb).1
end BlockAllocator
end WasabiOS
