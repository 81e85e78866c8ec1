import WasabiOS.Kernel.Nvme.Prp
import WasabiOS.Shared.Counts

/-!
# Kernel/Nvme/PrpForms — what the controller finds behind a prp

`Pages::from_ref` adds a page whenever the buffer does not start at a page, also if the last one is not reached.
The controller follows a list from page to page, and knows from the number of entries that are left whether the last
slot of a page is an entry or points to the next page.
-/

open Machinery Prog
namespace WasabiOS.Nvme
open List Nat
namespace Buffer

/-- `Pages::from_ref`: the pages, and the offset into the first of them -/
def fromRef (size : ℕ) (b : Buffer) : List ℕ × ℕ :=
  let alignedPageCount := countsRequiredFor size b.len
  let startPage := b.addr / size * size
  let offset := b.addr - startPage
  let pageCount := if offset = 0 then alignedPageCount else alignedPageCount + 1
  ((List.range pageCount).map fun i => startPage + i * size, offset)

/-- A byte of the buffer is in the page. -/
def Touches (size : ℕ) (b : Buffer) (page : ℕ) : Prop := ∃ i < b.len, page ≤ b.addr + i ∧ b.addr + i < page + size

/-- Consecutive pages, each with a byte of the buffer, and all its bytes are in them. -/
structure ExactCover (size : ℕ) (b : Buffer) (pages : List ℕ) : Prop where
  consecutive : ∃ first count, size ∣ first ∧ pages = (List.range count).map fun i => first + i * size
  touched : ∀ page ∈ pages, b.Touches size page
  contained : ∀ i < b.len, ∃ page ∈ pages, page ≤ b.addr + i ∧ b.addr + i < page + size

/-- The number of pages with a byte of the buffer. -/
def spanned (size : ℕ) (b : Buffer) : ℕ := (b.addr + b.len - 1) / size - b.addr / size + 1

/-- The page added for the offset is reached, or none is added. -/
def EndsInLast (size : ℕ) (b : Buffer) : Prop :=
  b.addr % size = 0 ∨ countsRequiredFor size b.len * size < b.addr % size + b.len

/-- How many pages there are. -/
def pageCount (size : ℕ) (b : Buffer) : ℕ := countsRequiredFor size b.len + if b.addr % size = 0 then 0 else 1

variable {size : ℕ} {b : Buffer}

theorem fromRef_eq : (b.fromRef size).1 = (List.range (b.pageCount size)).map fun i => b.addr / size * size + i * size := by
  have hoffset : b.addr - b.addr / size * size = b.addr % size := by
    have := div_add_mod' b.addr size
    omega
  simp only [fromRef, hoffset, pageCount]
  split_ifs <;> rfl

theorem pages_eq : b.pages = (b.fromRef PAGE_SIZE).1 := by
  rw [fromRef_eq]
  simp only [pages, pageCount, countsRequiredFor, ne_eq, ite_not, add_mul]
  congr 2
  split_ifs <;> rfl

variable (hsize : 0 < size) (hlen : 0 < b.len)
include hsize

theorem le_pageCount_mul : b.addr % size + b.len ≤ b.pageCount size * size := by
  have hle := le_countsRequiredFor_mul (k := b.len) hsize
  have hlt := mod_lt b.addr hsize
  rw [pageCount, add_mul]
  split_ifs <;> omega

include hlen

/-- The buffer goes on to the pages it spans. -/
theorem lt_spanned {k : ℕ} : k < b.spanned size ↔ k * size < b.addr % size + b.len := by
  have haddr : b.addr + b.len - 1 = b.addr % size + b.len - 1 + b.addr / size * size := by
    have := div_add_mod' b.addr size
    omega
  rw [spanned, haddr, add_mul_div_right _ _ hsize, Nat.add_sub_cancel, Nat.lt_succ_iff, le_div_iff_mul_le hsize]
  omega

theorem touched_iff : (∀ page ∈ (b.fromRef size).1, b.Touches size page) ↔ b.pageCount size ≤ b.spanned size := by
  have haddr := div_add_mod' b.addr size
  have hlt := mod_lt b.addr hsize
  have htouches : ∀ k, b.Touches size (b.addr / size * size + k * size) ↔ k < b.spanned size := by
    intro k
    rw [lt_spanned hsize hlen]
    constructor
    · rintro ⟨i, hi, hle, -⟩
      omega
    · intro hk
      rcases k.eq_zero_or_pos with rfl | hpos
      · exact ⟨0, hlen, by omega, by omega⟩
      · have hone : size ≤ k * size := Nat.le_mul_of_pos_left _ hpos
        exact ⟨k * size - b.addr % size, by omega, by omega, by omega⟩
  rw [fromRef_eq]
  simp only [mem_map, mem_range, forall_exists_index, and_imp, forall_apply_eq_imp_iff₂, htouches]
  refine ⟨fun h => ?_, fun h k hk => hk.trans_le h⟩
  by_contra hlt
  exact (h _ (not_le.1 hlt)).false

theorem pageCount_le_iff : b.pageCount size ≤ b.spanned size ↔ b.EndsInLast size := by
  have hspan : countsRequiredFor size b.len ≤ b.spanned size := by
    by_contra hlt
    have hend := (lt_spanned hsize hlen).not.1 (lt_irrefl (b.spanned size))
    exact hlt (countsRequiredFor_le hsize (by omega))
  rw [EndsInLast, ← lt_spanned hsize hlen, pageCount]
  split_ifs with hzero
  · exact iff_of_true hspan (.inl hzero)
  · rw [or_iff_right hzero]
    rfl

theorem spanned_le : b.spanned size ≤ b.pageCount size := by
  have hlast := (lt_spanned hsize hlen).1 (lt_succ_self (b.spanned size - 1))
  have hlt := lt_of_mul_lt_mul_right (hlast.trans_le (le_pageCount_mul hsize))
  omega

theorem exactCover_iff : ExactCover size b (b.fromRef size).1 ↔ b.EndsInLast size := by
  rw [← pageCount_le_iff hsize hlen, ← touched_iff hsize hlen]
  refine ⟨ExactCover.touched, fun h => ⟨⟨_, _, dvd_mul_left .., fromRef_eq⟩, h, fun i hi => ?_⟩⟩
  -- the page of the byte is one of them
  have haddr := div_add_mod' b.addr size
  have hle := le_pageCount_mul (b := b) hsize
  have hdiv := div_add_mod' (b.addr % size + i) size
  have hmod := mod_lt (b.addr % size + i) hsize
  rw [fromRef_eq]
  refine ⟨_, mem_map_of_mem (a := (b.addr % size + i) / size) (mem_range.2 ?_), by omega, by omega⟩
  exact (div_lt_iff_lt_mul hsize).2 (by omega)
end Buffer

/-- One entry for one page, two entries for two, a list for more. -/
def Prp.Suits (pages : ℕ) : Prp → Prop
  | entry _ => pages = 1
  | doubleEntry _ _ => pages = 2
  | list _ => 2 < pages

theorem length_prpEntries {translatePage : ℕ → Option ℕ} {pages entries : List ℕ} {offset : ℕ}
    (h : prpEntries translatePage pages offset = .ok entries) : entries.length = pages.length := by
  induction pages generalizing entries offset with
  | nil => cases h; rfl
  | cons page pages ih =>
    simp only [prpEntries] at h
    split at h
    case h_1 => cases h
    split at h
    case h_1 => cases h
    obtain ⟨rest, hrest, h⟩ := bind_eq_ok.1 h
    cases h
    exact congrArg (· + 1) (ih hrest)

theorem createPrpFormBuffer_suits (translatePage : ℕ → Option ℕ) (b : Buffer) (a : MappingsAllocator) :
    (createPrpFormBuffer translatePage b).wlp (fun prp _ => prp.Suits b.pages.length) (fun _ _ => True) a := by
  rw [createPrpFormBuffer, wlp_bind, wlp_lift]
  intro entries hentries
  rw [← length_prpEntries hentries]
  rcases entries with _ | ⟨e1, _ | ⟨e2, _ | ⟨e3, entries⟩⟩⟩
  · trivial
  · rfl
  · rfl
  · simp only [map_eq_pure_bind, wlp_bind]
    refine wlp_of_forall (fun l a' => ?_) fun _ _ => trivial
    show 2 < entries.length + 1 + 1 + 1
    omega

/-- What the allocator answers when it is asked for the `i`-th time. -/
def MappingsAllocator.answer (a : MappingsAllocator) (i : ℕ) : Except MemError Mapping :=
  match a.freeMappings.reverse[i]? with
  | some mapping => .ok mapping
  | none => a.supply (a.drawn + (i - a.freeMappings.length))

/-- No page is handed out twice. -/
def MappingsAllocator.Fresh (a : MappingsAllocator) : Prop :=
  ∀ i j m m', a.answer i = .ok m → a.answer j = .ok m' → m.page = m'.page → i = j

/-- How a controller follows a list, if `n` entries are left: what it finds, and the frames it reads. -/
def follow (memory : ℕ → ℕ → ℕ) (n frame : ℕ) : List ℕ × List ℕ :=
  if n ≤ PAGE_ENTRY_COUNT then ((List.range n).map (memory frame), [frame])
  else
    let rest := follow memory (n - (PAGE_ENTRY_COUNT - 1)) (memory frame (PAGE_ENTRY_COUNT - 1))
    ((List.range (PAGE_ENTRY_COUNT - 1)).map (memory frame) ++ rest.1, frame :: rest.2)
termination_by n
decreasing_by simp only [PAGE_ENTRY_COUNT] at *; omega

/-- **Some entries are in a page and those after it**: they are found by following it through the frames, which are
mapped to different pages, and only slots of these pages have been written. -/
structure Listed (a a' : MappingsAllocator) (entries : List ℕ) (first : Mapping) (others : List Mapping) : Prop where
  followed : ∀ memory : ℕ → ℕ → ℕ, (∀ m ∈ first :: others, memory m.frame = a'.memory m.page) →
    follow memory entries.length first.frame = (entries, (first :: others).map Mapping.frame)
  once : ((first :: others).map Mapping.page).Nodup
  inside : ∀ page slot, a'.memory page slot ≠ a.memory page slot →
    page ∈ (first :: others).map Mapping.page ∧ slot < PAGE_ENTRY_COUNT

section Lists
open MappingsAllocator
variable {a a' : MappingsAllocator} {entries : List ℕ} {first : Mapping} {others : List Mapping} {count entry : ℕ}

theorem MappingsAllocator.allocate_wp (a : MappingsAllocator) : allocate.wp
    (fun m a' => a.answer 0 = .ok m ∧ a'.memory = a.memory ∧ ∀ i, a'.answer i = a.answer (i + 1))
    (fun e _ => a.answer 0 = .error e) a := by
  rw [allocate, wp_bind, wp_get]
  rcases eq_nil_or_concat a.freeMappings with hfree | ⟨free, m, hfree⟩
  · simp only [hfree, getLast?_nil, wp_bind, wp_modify]
    have hanswer : ∀ i, a.draw.answer i = a.answer (i + 1) := fun i => by
      simp [answer, draw, hfree, add_assoc, add_comm 1]
    have hzero : a.answer 0 = a.supply a.drawn := by simp [answer, hfree]
    rw [hzero]
    cases a.supply a.drawn with
    | ok m => exact ⟨rfl, rfl, hanswer⟩
    | error e => rfl
  · simp [hfree, answer, pop]

theorem MappingsAllocator.Fresh.tail {m : Mapping} (h : a.Fresh) (hm : a.answer 0 = .ok m)
    (hanswer : ∀ i, a'.answer i = a.answer (i + 1)) :
    (∀ i m', a'.answer i = .ok m' → m'.page ≠ m.page) ∧ a'.Fresh := by
  refine ⟨fun i m' hm' heq => ?_, fun i j m1 m2 h1 h2 heq => ?_⟩
  · rw [hanswer] at hm'
    exact succ_ne_zero i (h _ _ _ _ hm' hm heq)
  · rw [hanswer] at h1 h2
    exact Nat.succ.inj (h _ _ _ _ h1 h2 heq)

/-- Writing changes one slot. -/
theorem MappingsAllocator.write_memory (page slot entry page' slot' : ℕ) : (a.write page slot entry).memory page' slot' =
    if page' = page ∧ slot' = slot then entry else a.memory page' slot' := by
  by_cases hpage : page' = page
  · subst hpage
    simp [write, Function.update_apply]
  · simp [write, hpage]

/-- An entry is added to a page with room. -/
theorem Listed.of_write (hcount : count < PAGE_ENTRY_COUNT) (h : Listed (a.write first.page count entry) a'
      ((List.range (count + 1)).map ((a.write first.page count entry).memory first.page) ++ entries) first others) :
    Listed a a' ((List.range count).map (a.memory first.page) ++ entry :: entries) first others := by
  have hentries : (List.range (count + 1)).map ((a.write first.page count entry).memory first.page) =
      (List.range count).map (a.memory first.page) ++ [entry] := by
    rw [range_succ, map_append, map_singleton, write_memory, if_pos ⟨rfl, rfl⟩]
    refine congrArg (· ++ [entry]) (map_congr_left fun slot hslot => ?_)
    rw [write_memory, if_neg fun h => (mem_range.1 hslot).ne h.2]
  rw [hentries, append_assoc] at h
  refine ⟨h.followed, h.once, fun page slot hne => ?_⟩
  by_cases hsame : page = first.page ∧ slot = count
  · exact ⟨hsame.1 ▸ mem_cons_self, hsame.2 ▸ hcount⟩
  · refine h.inside page slot ?_
    rwa [write_memory, if_neg hsame]

/-- A full page passes its last entry to the next one. -/
theorem Listed.of_full {next : Mapping} (hother : first.page ∉ (next :: others).map Mapping.page)
    {a2 : MappingsAllocator} (ha2 : a2.memory = (((a.write first.page (PAGE_ENTRY_COUNT - 1) next.frame).write
      next.page 0 (a.memory first.page (PAGE_ENTRY_COUNT - 1))).write next.page 1 entry).memory)
    (h : Listed a2 a' ((List.range 2).map (a2.memory next.page) ++ entries) next others) :
    Listed a a' ((List.range PAGE_ENTRY_COUNT).map (a.memory first.page) ++ entry :: entries) first (next :: others) := by
  have hne : first.page ≠ next.page := fun heq => hother (heq ▸ mem_cons_self)
  have hmoved : (List.range 2).map (a2.memory next.page) = [a.memory first.page (PAGE_ENTRY_COUNT - 1), entry] := by
    simp [ha2, range_succ, write_memory]
  -- nothing is written to the first page any more
  have hfirst : ∀ slot, a'.memory first.page slot =
      if slot = PAGE_ENTRY_COUNT - 1 then next.frame else a.memory first.page slot := fun slot => by
    by_contra hslot
    refine hother (h.inside first.page slot fun heq => hslot (heq.trans ?_)).1
    simp [ha2, write_memory, hne]
  rw [hmoved] at h
  refine ⟨fun memory hmemory => ?_, nodup_cons.2 ⟨hother, h.once⟩, fun page slot hslot => ?_⟩
  · have hrest := h.followed memory fun m hm => hmemory m (mem_cons_of_mem _ hm)
    have hpage : memory first.frame = a'.memory first.page := hmemory first mem_cons_self
    have hfront : (List.range (PAGE_ENTRY_COUNT - 1)).map (memory first.frame) =
        (List.range (PAGE_ENTRY_COUNT - 1)).map (a.memory first.page) :=
      map_congr_left fun slot hslot => by rw [hpage, hfirst, if_neg (mem_range.1 hslot).ne]
    have hlast : List.range PAGE_ENTRY_COUNT = List.range (PAGE_ENTRY_COUNT - 1) ++ [PAGE_ENTRY_COUNT - 1] := range_succ
    have hleft : (((List.range PAGE_ENTRY_COUNT).map (a.memory first.page) ++ entry :: entries).length -
        (PAGE_ENTRY_COUNT - 1)) = ([a.memory first.page (PAGE_ENTRY_COUNT - 1), entry] ++ entries).length := by
      simp only [length_append, length_map, length_range, length_cons, length_nil, PAGE_ENTRY_COUNT]
      omega
    rw [follow, if_neg (by simp), hleft, hfront, hpage, hfirst, if_pos rfl, hrest, hlast]
    simp
  · by_cases hsame : a'.memory page slot = a2.memory page slot
    · rw [hsame, ha2] at hslot
      simp only [write_memory] at hslot
      split_ifs at hslot with h1 h2 h3
      · exact ⟨by simp [h1.1], h1.2 ▸ by decide⟩
      · exact ⟨by simp [h2.1], h2.2 ▸ by decide⟩
      · exact ⟨by simp [h3.1], h3.2 ▸ by decide⟩
      · exact absurd rfl hslot
    · obtain ⟨hpage, hlt⟩ := h.inside page slot hsame
      exact ⟨mem_cons_of_mem _ hpage, hlt⟩

/-- **What the loop leaves**, by induction on the entries; `count` slots of the page are in use. -/
theorem PrpList.fill_wp (hfirst : ∀ i m, a.answer i = .ok m → m.page ≠ first.page) (hfresh : a.Fresh)
    (hoffset : ∀ e ∈ entries, PrpEntry.offset e = 0) (hcount : count ≤ PAGE_ENTRY_COUNT)
    (mappings : List Mapping) : (fill entries first.page count mappings).wp
      (fun ms a' => ∃ others, ms = mappings ++ others ∧ (∀ m ∈ others, ∃ i, a.answer i = .ok m) ∧
        Listed a a' ((List.range count).map (a.memory first.page) ++ entries) first others)
      (fun e _ => ∃ i, a.answer i = .error e) a := by
  induction entries generalizing a first count mappings with
  | nil =>
    refine ⟨[], (append_nil _).symm, forall_mem_nil _, fun memory hmem => ?_,
      nodup_singleton _, fun page slot h => absurd rfl h⟩
    rw [follow, if_pos (by simpa using hcount), hmem first mem_cons_self]
    simp
  | cons entry entries ih =>
    obtain ⟨hentry, hoffset⟩ := forall_mem_cons.1 hoffset
    rw [fill, wp_bind, wp_assert]
    refine ⟨decide_eq_true hentry, ?_⟩
    split_ifs with hfull
    · subst hfull
      rw [wp_bind]
      refine wp_mono a.allocate_wp ?_ fun e _ he => ⟨0, he⟩
      rintro m a₁ ⟨hm, hmemory, hanswer⟩
      simp only [wp_bind, wp_get, wp_modify, hmemory]
      obtain ⟨hnew, hfresh₁⟩ := hfresh.tail hm hanswer
      generalize ha2 : write m.page 1 entry _ = a2
      have hsame : ∀ i, a2.answer i = a₁.answer i := fun i => ha2 ▸ rfl
      have hpages : a2.memory = _ := congrArg memory ha2.symm
      refine wp_mono (ih (a := a2) (ha2 ▸ hnew) (ha2 ▸ hfresh₁) hoffset (show 2 ≤ PAGE_ENTRY_COUNT by decide) _) ?_ ?_
      · rintro ms a' ⟨others, rfl, hothers, hlisted⟩
        replace hothers : ∀ m' ∈ others, ∃ i, a.answer i = .ok m' := fun m' hm' => by
          obtain ⟨i, hi⟩ := hothers m' hm'
          exact ⟨i + 1, hanswer i ▸ hsame i ▸ hi⟩
        have hall : ∀ m' ∈ m :: others, ∃ i, a.answer i = .ok m' := forall_mem_cons.2 ⟨⟨0, hm⟩, hothers⟩
        refine ⟨m :: others, append_assoc .., hall, hlisted.of_full ?_ ?_⟩
        · intro hmem
          obtain ⟨m', hm', heq⟩ := mem_map.1 hmem
          obtain ⟨i, hi⟩ := hall m' hm'
          exact hfirst i m' hi heq
        · rw [hpages]
          simp only [write, hmemory]
      · rintro e - ⟨i, hi⟩
        exact ⟨i + 1, hanswer i ▸ hsame i ▸ hi⟩
    · rw [wp_bind, wp_modify]
      have hlt : count < PAGE_ENTRY_COUNT := lt_of_le_of_ne hcount hfull
      refine wp_mono (ih (a := a.write first.page count entry) hfirst hfresh hoffset hlt mappings) ?_ fun _ _ he => he
      rintro ms a' ⟨others, rfl, hothers, hlisted⟩
      exact ⟨others, rfl, hothers, hlisted.of_write hlt⟩

/-- **A list holds its entries**, for every allocator that hands out fresh pages. -/
theorem prpList_followed (entries : List ℕ) (a : MappingsAllocator) (hlen : 3 ≤ entries.length)
    (hoffset : ∀ e ∈ entries.tail, PrpEntry.offset e = 0) (hfresh : a.Fresh) : (PrpList.new entries).wp
      (fun l a' => ∃ first others, (Prp.list l).mappings = first :: others ∧ (Prp.list l).entry2 = first.frame ∧
        entries = (Prp.list l).entry1 :: entries.tail ∧ l.entryCount = entries.length ∧
        Listed a a' entries.tail first others)
      (fun e _ => ∃ i, a.answer i = .error e) a := by
  rw [PrpList.new, wp_bind, wp_assert]
  refine ⟨decide_eq_true hlen, ?_⟩
  rw [wp_bind]
  refine wp_mono a.allocate_wp ?_ fun e _ he => ⟨0, he⟩
  rintro m a₁ ⟨hm, hmemory, hanswer⟩
  obtain ⟨e, es, rfl⟩ := exists_cons_of_length_pos (by omega : 0 < entries.length)
  obtain ⟨hnew, hfresh₁⟩ := hfresh.tail hm hanswer
  simp only [head?_cons, expect_some, wp_bind, wp_pure, tail_cons]
  refine wp_mono (PrpList.fill_wp hnew hfresh₁ hoffset (zero_le _) [m]) ?_ ?_
  · rintro ms a' ⟨others, rfl, -, hlisted⟩
    exact ⟨m, others, rfl, rfl, rfl, trivial, hlisted.followed, hlisted.once, hmemory ▸ hlisted.inside⟩
  · rintro err - ⟨i, hi⟩
    exact ⟨i + 1, hanswer i ▸ hi⟩

/-- An allocator whose pages follow one another. -/
def upwards : MappingsAllocator := ⟨[], fun i => .ok ⟨PAGE_SIZE * i, PAGE_SIZE * (i + 1)⟩, 0, fun _ _ => 0⟩

theorem fresh_upwards : upwards.Fresh := by
  intro i j m m' hm hm' heq
  cases hm
  cases hm'
  have hsame : 4096 * (0 + (i - 0)) = 4096 * (0 + (j - 0)) := heq
  omega

theorem prpList_followed_upwards : (PrpList.new [4100, 8192, 12288]).wp
    (fun l a' => ∃ first others, (Prp.list l).mappings = first :: others ∧ (Prp.list l).entry2 = first.frame ∧
      [4100, 8192, 12288] = (Prp.list l).entry1 :: [8192, 12288] ∧ l.entryCount = 3 ∧
      Listed upwards a' [8192, 12288] first others)
    (fun e _ => ∃ i, upwards.answer i = .error e) upwards :=
  prpList_followed [4100, 8192, 12288] upwards (by decide) (by decide) fresh_upwards
end Lists
end WasabiOS.Nvme
