import WasabiOS.Kernel.PageRuns
import WasabiOS.Shared.RangeSetChoice

/-!
# Kernel/GuardedPages — pages with guards around them

`allocate_guarded_pages` asks the free set for one run: the head guard, the pages, the tail guard.  The alignment it
asks for is that of the start of the run, which with a head guard is the guard's.  For pages of 2 MiB and 1 GiB it
asks for the alignment `S::SIZE - 4 KiB`, which is no power of two, so that the free set never serves it.

`servesGuarded_iff` says exactly when a run that is there is found and handed out.
-/

open Machinery Prog
namespace WasabiOS
open Aligned MemAddr U64 Finset UInt64
variable {S : PageSize} {count : UInt64} {headGuard tailGuard : Bool} {Valid : ℕ → Prop}
namespace PageAllocator

/-- The number of bytes of the pages with their guards. -/
def guardedBytes (S : PageSize) (count : UInt64) (headGuard tailGuard : Bool) : ℕ :=
  guardSize headGuard + count.toNat * S.SIZE.toNat + guardSize tailGuard

/-- The free set has room for pages with guards whose first page is at `q`. -/
structure SuitableRun (a : PageAllocator) (S : PageSize) (count : UInt64) (headGuard tailGuard : Bool) (q : ℕ) :
    Prop where
  aligned : S.SIZE.toNat ∣ q
  guard_le : guardSize headGuard ≤ q
  free : Finset.Ico (q - guardSize headGuard) (q + count.toNat * S.SIZE.toNat + guardSize tailGuard) ⊆ a.vaddrs.addrs
end PageAllocator

open PageAllocator

/-- **The layout of pages with guards** in a run that starts at `start`: the head guard is directly before the first
page and the tail guard directly after the last one. -/
structure GuardedPages.LaidOut (g : GuardedPages S) (count : UInt64) (headGuard tailGuard : Bool) (start : ℕ) :
    Prop where
  count_eq : g.pages.count = count
  firstPage : g.pages.firstPage.start.toNat = start + guardSize headGuard
  head : g.headGuard.map (fun guard => guard.start.toNat) = if headGuard then some start else none
  tail : g.tailGuard.map (fun guard => guard.start.toNat) =
    if tailGuard then some (start + guardSize headGuard + count.toNat * S.SIZE.toNat) else none

namespace PageAllocator
variable {a : PageAllocator}

/-- **A run that is there is found**: if there is a suitable one, the call returns pages with guards, and it takes
them out of the free set, with less than a page of padding before them. -/
def ServesGuarded (a : PageAllocator) (S : PageSize) (count : UInt64) (headGuard tailGuard : Bool) : Prop :=
  (∃ q, a.SuitableRun S count headGuard tailGuard q) →
    ∃ g a' base start, allocateGuardedPages S count headGuard tailGuard a = .ok g a' ∧
      g.LaidOut count headGuard tailGuard start ∧ base ≤ start ∧ start < base + S.SIZE.toNat ∧
      Finset.Ico base (start + guardedBytes S count headGuard tailGuard) ⊆ a.vaddrs.addrs ∧
      a'.vaddrs.addrs = a.vaddrs.addrs \ Finset.Ico base (start + guardedBytes S count headGuard tailGuard)

/-- The addresses that are computed for a run at `start` are virtual addresses.  With a guard this includes the one
after the last page. -/
structure Addressable (S : PageSize) (count : UInt64) (headGuard tailGuard : Bool) (start : ℕ) : Prop where
  run_start : IsCanonical start
  first_page : IsCanonical (start + guardSize headGuard)
  past_pages : headGuard = true ∨ tailGuard = true → start + guardSize headGuard + count.toNat * S.SIZE.toNat < 2 ^ 64 ∧
    IsCanonical (start + guardSize headGuard + count.toNat * S.SIZE.toNat)

/-- **When a run is found**: there is no head guard before large pages, the size is a `u64`, no entry of the free set
is so close to its end that the search gives up, and the entry that serves the request has addresses for the pages
and, with a guard, for what is after them. -/
structure GuardsFit (a : PageAllocator) (S : PageSize) (count : UInt64) (headGuard tailGuard : Bool) : Prop where
  small : headGuard = true → S = .Size4KiB
  size : guardedBytes S count headGuard tailGuard < 2 ^ 64
  no_overflow : ∀ e ∈ a.vaddrs.entries,
    ¬ RangeSet.Overflows (guardedBytes S count headGuard tailGuard) S.SIZE.toNat e.lo
  addressable : ∀ e, RangeSet.Chosen (guardedBytes S count headGuard tailGuard) S.SIZE.toNat a.vaddrs.entries e →
      Addressable S count headGuard tailGuard (alignUp S.SIZE.toNat e.lo)
end PageAllocator

/-! ## Addresses -/

theorem MemAddr.exists_new [DecidablePred Valid] {addr : UInt64} :
    (∃ b : MemAddr Valid, MemAddr.new addr = .ok b) ↔ Valid addr.toNat := by
  constructor
  · rintro ⟨b, hb⟩
    rw [← new_eq_ok hb]
    exact b.valid
  · exact fun h => ⟨⟨addr, h⟩, dif_pos h⟩

theorem MemAddr.exists_add [DecidablePred Valid] {a : MemAddr Valid} {rhs : UInt64} :
    (∃ b, a.add rhs = .ok b) ↔ a.asU64.toNat + rhs.toNat < 2 ^ 64 ∧ Valid (a.asU64.toNat + rhs.toNat) := by
  constructor
  · rintro ⟨b, hb⟩
    rw [← add_eq_ok hb]
    exact ⟨b.asU64.toNat_lt, b.valid⟩
  · rintro ⟨hlt, hvalid⟩
    rw [← toNat_add_of_lt hlt] at hvalid
    obtain ⟨b, hb⟩ := exists_new.2 hvalid
    refine ⟨b, ?_⟩
    rw [MemAddr.add, add_ok hlt, ok_bind, hb]

theorem Aligned.exists_fromStartAddress {address : MemAddr Valid} :
    (∃ u : Aligned Valid S, fromStartAddress S address = .ok u) ↔ S.SIZE.toNat ∣ address.asU64.toNat := by
  constructor
  · rintro ⟨u, hu⟩
    rw [← fromStartAddress_eq_ok hu]
    exact u.aligned
  · exact fun h => ⟨⟨address, h⟩, dif_pos h⟩

namespace PageAllocator
variable {a a' : PageAllocator} {g : GuardedPages S} {align size : UInt64}

/-! ## What the call does -/

/-- The result for a run at `start`: without guards, that of `allocate_pages`. -/
def placed (S : PageSize) (count : UInt64) (headGuard tailGuard : Bool) (start : VirtAddr) : Checked (GuardedPages S) :=
  if !headGuard && !tailGuard then do return ⟨none, none, ⟨← fromStartAddress S start, count⟩⟩
  else guardedAt S count headGuard tailGuard start

theorem allocateFrom_eq_ok {start : VirtAddr} : allocateFrom size align a = .ok start a' ↔
    ∃ p, a.vaddrs.allocate size align = .ok (some p, a'.vaddrs) ∧ MemAddr.new p = .ok start := by
  have hvaddrs : ∀ o b, onVaddrs (·.allocate size align) a = .ok o b ↔
      a.vaddrs.allocate size align = .ok (o, b.vaddrs) := by
    intro o b
    rw [onVaddrs, zoom_eq_ok]
    constructor
    · rintro ⟨v, hv, rfl⟩
      exact stateful_eq_ok.1 hv
    · exact fun h => ⟨b.vaddrs, stateful_eq_ok.2 h, rfl⟩
  rw [allocateFrom, bind_ok_iff]
  constructor
  · rintro ⟨o, b, hrun, hrest⟩
    cases o with
    | none => cases hrest
    | some p =>
      obtain ⟨hnew, rfl⟩ := lift_eq_ok.1 hrest
      exact ⟨p, (hvaddrs _ _).1 hrun, hnew⟩
  · rintro ⟨p, halloc, hnew⟩
    exact ⟨some p, a', (hvaddrs _ _).2 halloc, lift_eq_ok.2 ⟨hnew, rfl⟩⟩

/-- With and without guards, the pages are placed in one run of the free set. -/
theorem allocateGuardedPages_eq : allocateGuardedPages S count headGuard tailGuard = (do
    let size ← lift (guardedSize S count headGuard tailGuard)
    let align ← lift (guardedAlign S headGuard)
    let start ← allocateFrom size align
    lift (placed S count headGuard tailGuard start)) := by
  unfold allocateGuardedPages placed
  by_cases hnone : (!headGuard && !tailGuard) = true
  · obtain ⟨rfl, rfl⟩ : headGuard = false ∧ tailGuard = false := by simpa using hnone
    have halign : guardedAlign S false = .ok S.SIZE := rfl
    simp only [if_pos hnone, allocatePages, guardedSize_false, halign, bind_assoc, lift_ok, pure_bind]
    congr! 4 with size start
    cases fromStartAddress S start with
    | ok page => rfl
    | error f => rfl
  · simp only [if_neg hnone]

/-- **A call that returns**: the run comes from the free set, and the pages are placed in it. -/
theorem allocateGuardedPages_eq_ok : allocateGuardedPages S count headGuard tailGuard a = .ok g a' ↔
    ∃ size align p start, guardedSize S count headGuard tailGuard = .ok size ∧
      guardedAlign S headGuard = .ok align ∧ a.vaddrs.allocate size align = .ok (some p, a'.vaddrs) ∧
      MemAddr.new p = .ok start ∧ placed S count headGuard tailGuard start = .ok g := by
  simp only [allocateGuardedPages_eq, bind_ok_iff, lift_eq_ok, allocateFrom_eq_ok]
  constructor
  · rintro ⟨size, _, ⟨hsize, rfl⟩, align, _, ⟨halign, rfl⟩, start, _, ⟨p, halloc, hnew⟩, hplaced, rfl⟩
    exact ⟨size, align, p, start, hsize, halign, halloc, hnew, hplaced⟩
  · rintro ⟨size, align, p, start, hsize, halign, halloc, hnew, hplaced⟩
    exact ⟨size, a, ⟨hsize, rfl⟩, align, a, ⟨halign, rfl⟩, start, a', ⟨p, halloc, hnew⟩, hplaced, rfl⟩

/-- The size is a `u64` or there is an overflow. -/
theorem guardedSize_eq_ok {n : UInt64} : guardedSize S count headGuard tailGuard = .ok n ↔
    n.toNat = guardedBytes S count headGuard tailGuard := by
  have hguard : ∀ (guard : Bool) (x y : UInt64), addGuard guard x = .ok y ↔ y.toNat = x.toNat + guardSize guard := by
    intro guard x y
    refine ⟨addGuard_eq_ok, fun h => ?_⟩
    cases guard with
    | false => exact congrArg Except.ok (UInt64.toNat_inj.1 h).symm
    | true =>
      rw [addGuard, if_pos rfl, add_eq_ok]
      exact h
  simp only [guardedSize, bind_eq_ok, hguard, mul_eq_ok, guardedBytes]
  constructor
  · rintro ⟨x, hx, y, hy, hn⟩
    rw [hn, hy, hx, mul_comm, add_comm (guardSize headGuard)]
  · intro hn
    have hlt := n.toNat_lt
    have hcomm := mul_comm S.SIZE.toNat count.toNat
    have hpages : (UInt64.ofNat (S.SIZE.toNat * count.toNat)).toNat = S.SIZE.toNat * count.toNat :=
      toNat_ofNat_of_lt' (by change _ < 2 ^ 64; omega)
    have hhead : (UInt64.ofNat (S.SIZE.toNat * count.toNat + guardSize headGuard)).toNat
        = S.SIZE.toNat * count.toNat + guardSize headGuard :=
      toNat_ofNat_of_lt' (by change _ < 2 ^ 64; omega)
    refine ⟨_, hpages, _, hhead.trans (by rw [hpages]), ?_⟩
    rw [hhead, hn]
    omega

/-! ## The pages in a run -/

variable {start : VirtAddr} {head : Option (Page .Size4KiB) × VirtAddr} {tail : Option (Page .Size4KiB)}

theorem headGuardAt_eq_ok (h : headGuardAt headGuard start = .ok head) :
    head.2.asU64.toNat = start.asU64.toNat + guardSize headGuard ∧
      head.1.map (fun guard => guard.start.toNat) = if headGuard then some start.asU64.toNat else none := by
  refine ⟨(headGuardAt_covers h).1, ?_⟩
  cases headGuard with
  | false =>
    cases h
    rfl
  | true =>
    obtain ⟨guard, hguard, h⟩ := bind_eq_ok.1 h
    obtain ⟨behind, -, h⟩ := bind_eq_ok.1 h
    cases h
    rw [← fromStartAddress_eq_ok hguard]
    rfl

theorem exists_headGuardAt (halign : PageSize.Size4KiB.SIZE.toNat ∣ start.asU64.toNat) :
    (∃ head, headGuardAt headGuard start = .ok head) ↔
      start.asU64.toNat + guardSize headGuard < 2 ^ 64 ∧ IsCanonical (start.asU64.toNat + guardSize headGuard) := by
  cases headGuard with
  | false => exact iff_of_true ⟨_, rfl⟩ ⟨start.asU64.toNat_lt, start.valid⟩
  | true =>
    rw [guardSize_true, ← exists_add]
    obtain ⟨guard, hguard⟩ := exists_fromStartAddress.2 halign
    constructor
    · rintro ⟨head, h⟩
      obtain ⟨_, _, h⟩ := bind_eq_ok.1 h
      obtain ⟨behind, hbehind, -⟩ := bind_eq_ok.1 h
      exact ⟨behind, hbehind⟩
    · rintro ⟨behind, hbehind⟩
      refine ⟨(some guard, behind), ?_⟩
      rw [headGuardAt, if_pos rfl, hguard, ok_bind, hbehind, ok_bind]
      rfl

theorem tailGuardAt_eq_ok (h : tailGuardAt tailGuard start = .ok tail) :
    tail.map (fun guard => guard.start.toNat) = if tailGuard then some start.asU64.toNat else none := by
  cases tailGuard with
  | false =>
    cases h
    rfl
  | true =>
    obtain ⟨guard, hguard, h⟩ := bind_eq_ok.1 h
    cases h
    rw [← fromStartAddress_eq_ok hguard]
    rfl

theorem exists_tailGuardAt (halign : PageSize.Size4KiB.SIZE.toNat ∣ start.asU64.toNat) :
    ∃ tail, tailGuardAt tailGuard start = .ok tail := by
  cases tailGuard with
  | false => exact ⟨none, rfl⟩
  | true =>
    obtain ⟨guard, hguard⟩ := exists_fromStartAddress.2 halign
    refine ⟨some guard, ?_⟩
    rw [tailGuardAt, if_pos rfl, hguard]
    rfl

/-- **Pages that are placed are laid out.** -/
theorem placed_laidOut (h : placed S count headGuard tailGuard start = .ok g) :
    g.LaidOut count headGuard tailGuard start.asU64.toNat := by
  by_cases hnone : (!headGuard && !tailGuard) = true
  · obtain ⟨rfl, rfl⟩ : headGuard = false ∧ tailGuard = false := by simpa using hnone
    obtain ⟨page, hpage, h⟩ := bind_eq_ok.1 h
    cases h
    refine ⟨rfl, ?_, rfl, rfl⟩
    rw [← fromStartAddress_eq_ok hpage]
    rfl
  · rw [placed, if_neg hnone] at h
    obtain ⟨head, hhead, h⟩ := bind_eq_ok.1 h
    obtain ⟨firstPage, hfirst, h⟩ := bind_eq_ok.1 h
    obtain ⟨n, hmul, h⟩ := bind_eq_ok.1 h
    obtain ⟨past, hpast, h⟩ := bind_eq_ok.1 h
    obtain ⟨tail, htail, h⟩ := bind_eq_ok.1 h
    cases h
    obtain ⟨hbehind, hguard⟩ := headGuardAt_eq_ok hhead
    refine ⟨rfl, ?_, hguard, ?_⟩
    · rw [← hbehind, ← fromStartAddress_eq_ok hfirst]
      rfl
    · rw [tailGuardAt_eq_ok htail, add_eq_ok hpast, hbehind, mul_eq_ok.1 hmul, mul_comm]

/-- **When pages can be placed**, in an aligned run inside the address space. -/
theorem exists_placed (hsmall : headGuard = true → S = .Size4KiB) (halign : S.SIZE.toNat ∣ start.asU64.toNat)
    (hroom : start.asU64.toNat + guardedBytes S count headGuard tailGuard ≤ 2 ^ 64) :
    (∃ g, placed S count headGuard tailGuard start = .ok g) ↔
      Addressable S count headGuard tailGuard start.asU64.toNat := by
  by_cases hnone : (!headGuard && !tailGuard) = true
  · obtain ⟨rfl, rfl⟩ : headGuard = false ∧ tailGuard = false := by simpa using hnone
    obtain ⟨page, hpage⟩ := exists_fromStartAddress.2 halign
    refine iff_of_true ⟨⟨none, none, ⟨page, count⟩⟩, ?_⟩ ⟨start.valid, start.valid, fun h => ?_⟩
    · rw [placed, if_pos hnone, hpage]
      rfl
    · rcases h with h | h <;> cases h
  have hguard : headGuard = true ∨ tailGuard = true := by simpa [imp_iff_not_or] using hnone
  have hfour : PageSize.Size4KiB.SIZE.toNat ∣ S.SIZE.toNat := S.dvd_SIZE
  -- the guards leave less than the address space for the pages
  have hless : count.toNat * S.SIZE.toNat < 2 ^ 64 := by
    have hone : 1 ≤ guardSize headGuard + guardSize tailGuard := by
      rcases hguard with rfl | rfl
      · exact Nat.le_add_right_of_le (by decide)
      · exact Nat.le_add_left_of_le (by decide)
    unfold guardedBytes at hroom
    omega
  have hmul : mul S.SIZE count = .ok (S.SIZE * count) := by
    rw [mul_comm] at hless
    rw [mul_eq_ok, toNat_mul_of_lt hless]
  have hpages : (S.SIZE * count).toNat = count.toNat * S.SIZE.toNat := by rw [mul_eq_ok.1 hmul, mul_comm]
  have hfirst : S.SIZE.toNat ∣ start.asU64.toNat + guardSize headGuard := by
    cases headGuard with
    | false => exact halign
    | true =>
      cases hsmall rfl
      exact Nat.dvd_add halign (dvd_refl _)
  rw [placed, if_neg hnone]
  constructor
  · rintro ⟨g, h⟩
    obtain ⟨head, hhead, h⟩ := bind_eq_ok.1 h
    obtain ⟨_, _, h⟩ := bind_eq_ok.1 h
    rw [hmul, ok_bind] at h
    obtain ⟨past, hpast, -⟩ := bind_eq_ok.1 h
    have hbehind := (headGuardAt_eq_ok hhead).1
    have hlast := exists_add.1 ⟨past, hpast⟩
    rw [hbehind, hpages] at hlast
    exact ⟨start.valid, hbehind ▸ head.2.valid, fun _ => hlast⟩
  · intro h
    obtain ⟨hlast, hcanonical⟩ := h.past_pages hguard
    obtain ⟨head, hhead⟩ := (exists_headGuardAt (hfour.trans halign)).2 ⟨by omega, h.first_page⟩
    have hbehind := (headGuardAt_eq_ok hhead).1
    obtain ⟨firstPage, hpage⟩ : ∃ u : Page S, fromStartAddress S head.2 = .ok u :=
      exists_fromStartAddress.2 (hbehind ▸ hfirst)
    obtain ⟨past, hpast⟩ : ∃ b, head.2.add (S.SIZE * count) = .ok b :=
      exists_add.2 (by rw [hbehind, hpages]; exact ⟨hlast, hcanonical⟩)
    have htailAlign : PageSize.Size4KiB.SIZE.toNat ∣ past.asU64.toNat := by
      rw [add_eq_ok hpast, hbehind, hpages]
      exact hfour.trans (Nat.dvd_add hfirst (dvd_mul_left _ _))
    obtain ⟨tail, htail⟩ := exists_tailGuardAt htailAlign
    refine ⟨⟨head.1, tail, ⟨firstPage, count⟩⟩, ?_⟩
    rw [guardedAt, hhead, ok_bind, hpage, ok_bind, hmul, ok_bind, hpast, ok_bind, htail]
    rfl

/-! ## The alignment -/

theorem guardedAlign_small (hsmall : headGuard = true → S = .Size4KiB) : guardedAlign S headGuard = .ok S.SIZE := by
  cases headGuard with
  | false => rfl
  | true =>
    cases hsmall rfl
    rfl

/-- **The alignment asked for before large pages is no power of two**, and nothing has it. -/
theorem allocate_large {v : RangeSet 256} (hlarge : S ≠ .Size4KiB)
    (halign : guardedAlign S true = .ok align) : v.allocate size align = .ok (none, v) := by
  have hones : countOnes align ≠ 1 := by
    cases S with
    | Size4KiB => exact absurd rfl hlarge
    | Size2MiB =>
      cases halign
      decide
    | Size1GiB =>
      cases halign
      decide
  rw [RangeSet.allocate, RangeSet.allocatePrefer, if_pos hones, ite_self]
  rfl

theorem not_serves_of_large (hhead : headGuard = true) (hlarge : S ≠ .Size4KiB)
    (hrun : ∃ q, a.SuitableRun S count headGuard tailGuard q) : ¬ a.ServesGuarded S count headGuard tailGuard := by
  intro h
  obtain ⟨g, a', -, -, hok, -⟩ := h hrun
  obtain ⟨size, align, p, start, -, halign, halloc, -⟩ := allocateGuardedPages_eq_ok.1 hok
  rw [allocate_large hlarge (hhead ▸ halign)] at halloc
  cases halloc

/-! ## When a run is found -/

theorem one_le_guardedBytes (hcount : 1 ≤ count.toNat) : 1 ≤ guardedBytes S count headGuard tailGuard := by
  have hpages : 1 ≤ count.toNat * S.SIZE.toNat := mul_pos hcount S.SIZE_pos
  unfold guardedBytes
  omega

/-- A suitable run lies in an entry of the free set, which has room for the request. -/
theorem SuitableRun.exists_fits {q : ℕ} (h : a.SuitableRun S count headGuard tailGuard q)
    (ha : RangeSet.Canonical a.vaddrs.entries) (hcount : 1 ≤ count.toNat)
    (hsmall : headGuard = true → S = .Size4KiB) :
    ∃ e ∈ a.vaddrs.entries, RangeSet.Fits (guardedBytes S count headGuard tailGuard) S.SIZE.toNat e.lo e.past := by
  have hbytes : 1 ≤ guardedBytes S count headGuard tailGuard := one_le_guardedBytes hcount
  have hguard := h.guard_le
  have hend : q - guardSize headGuard + guardedBytes S count headGuard tailGuard
      = q + count.toNat * S.SIZE.toNat + guardSize tailGuard := by
    unfold guardedBytes
    omega
  have hfree := h.free
  rw [← hend] at hfree
  obtain ⟨e, he, hlo, hpast⟩ := ha.apart.exists_item ha.proper (Nat.lt_add_of_pos_right hbytes) hfree
  refine ⟨e, he, (RangeSet.exists_alignedRun_iff S.SIZE_pos).1 ⟨q - guardSize headGuard, ?_, hlo, hpast⟩⟩
  cases headGuard with
  | false => exact h.aligned
  | true =>
    cases hsmall rfl
    exact Nat.dvd_sub h.aligned (dvd_refl _)

/-- **The run that is taken**, if the size is a `u64` and no entry overflows: from the first entry with the least
padding. -/
theorem allocate_guarded (ha : RangeSet.Canonical a.vaddrs.entries)
    (hbytes : size.toNat = guardedBytes S count headGuard tailGuard) (hcount : 1 ≤ count.toNat)
    (hover : ∀ e ∈ a.vaddrs.entries, ¬ RangeSet.Overflows (guardedBytes S count headGuard tailGuard) S.SIZE.toNat e.lo)
    (hfits : ∃ e ∈ a.vaddrs.entries,
      RangeSet.Fits (guardedBytes S count headGuard tailGuard) S.SIZE.toNat e.lo e.past) :
    ∃ e p v, RangeSet.Chosen (guardedBytes S count headGuard tailGuard) S.SIZE.toNat a.vaddrs.entries e ∧
      p.toNat = alignUp S.SIZE.toNat e.lo ∧ a.vaddrs.allocate size S.SIZE = .ok (some p, v) ∧
      v.addrs = a.vaddrs.addrs \ Finset.Ico e.lo (p.toNat + guardedBytes S count headGuard tailGuard) := by
  have hsize : 1 ≤ size.toNat := hbytes ▸ one_le_guardedBytes hcount
  rw [← hbytes, S.toNat_SIZE] at *
  obtain ⟨e, p, v, hchosen, hp, halloc, -, haddrs⟩ := RangeSet.allocate_chosen ha hsize S.toNat_SIZE hover hfits
  exact ⟨e, p, v, hchosen, hp, halloc, haddrs⟩

/-- The run that is taken ends inside the address space. -/
theorem alignUp_add_le {e : Range} {n m : ℕ} {l : List Range} (h : RangeSet.Chosen n m l e) :
    alignUp m e.lo + n ≤ 2 ^ 64 :=
  h.fits.trans e.past_le

theorem guardsFit_of_ok (ha : RangeSet.Canonical a.vaddrs.entries) (hcount : 1 ≤ count.toNat)
    (h : allocateGuardedPages S count headGuard tailGuard a = .ok g a') :
    a.GuardsFit S count headGuard tailGuard := by
  obtain ⟨size, align, p, start, hsize, halign, halloc, hnew, hplaced⟩ := allocateGuardedPages_eq_ok.1 h
  have hbytes := guardedSize_eq_ok.1 hsize
  have hsmall : headGuard = true → S = .Size4KiB := by
    intro hhead
    by_contra hlarge
    rw [allocate_large hlarge (hhead ▸ halign)] at halloc
    cases halloc
  cases Except.ok.inj ((guardedAlign_small hsmall).symm.trans halign)
  have hone : 1 ≤ size.toNat := hbytes ▸ one_le_guardedBytes hcount
  rcases RangeSet.allocate_eq ha hone S.toNat_SIZE with ⟨-, hnone⟩ | ⟨hover, hfits, -⟩
  · rw [hnone] at halloc
    cases halloc
  rw [hbytes, ← S.toNat_SIZE] at hover hfits
  refine ⟨hsmall, hbytes ▸ size.toNat_lt, hover, fun e hchosen => ?_⟩
  obtain ⟨e', p', v, hchosen', hp, halloc', -⟩ := allocate_guarded ha hbytes hcount hover hfits
  rw [halloc'] at halloc
  cases halloc
  cases hchosen.unique hchosen'
  have hstart : start.asU64.toNat = alignUp S.SIZE.toNat e.lo := by rw [new_eq_ok hnew, hp]
  rw [← hstart]
  refine (exists_placed hsmall ?_ ?_).1 ⟨g, hplaced⟩
  · rw [hstart]
    exact dvd_alignUp S.SIZE_pos
  · rw [hstart]
    exact alignUp_add_le hchosen

theorem GuardsFit.serves (h : a.GuardsFit S count headGuard tailGuard) (ha : RangeSet.Canonical a.vaddrs.entries)
    (hcount : 1 ≤ count.toNat) : a.ServesGuarded S count headGuard tailGuard := by
  rintro ⟨q, hrun⟩
  have hbytes : (UInt64.ofNat (guardedBytes S count headGuard tailGuard)).toNat
      = guardedBytes S count headGuard tailGuard := toNat_ofNat_of_lt' h.size
  obtain ⟨e, p, v, hchosen, hp, halloc, haddrs⟩ :=
    allocate_guarded ha hbytes hcount h.no_overflow (hrun.exists_fits ha hcount h.small)
  have haddr := h.addressable e hchosen
  rw [← hp] at haddr
  obtain ⟨start, hnew⟩ : ∃ start : VirtAddr, MemAddr.new p = .ok start := exists_new.2 haddr.run_start
  have hstart : start.asU64 = p := new_eq_ok hnew
  have hdvd : S.SIZE.toNat ∣ start.asU64.toNat := by
    rw [hstart, hp]
    exact dvd_alignUp S.SIZE_pos
  have hroom : start.asU64.toNat + guardedBytes S count headGuard tailGuard ≤ 2 ^ 64 := by
    rw [hstart, hp]
    exact alignUp_add_le hchosen
  obtain ⟨g, hg⟩ : ∃ g, placed S count headGuard tailGuard start = .ok g :=
    (exists_placed h.small hdvd hroom).2 (hstart ▸ haddr)
  refine ⟨g, ⟨v⟩, e.lo, p.toNat, ?_, ?_, ?_, ?_, ?_, haddrs⟩
  · exact allocateGuardedPages_eq_ok.2
      ⟨_, _, p, start, guardedSize_eq_ok.2 hbytes, guardedAlign_small h.small, halloc, hnew, hg⟩
  · exact hstart ▸ placed_laidOut hg
  · exact hp ▸ le_alignUp
  · exact hp ▸ alignUp_lt S.SIZE_pos
  · intro x hx
    rw [mem_Ico, hp] at hx
    exact IntervalList.mem_cover.2 ⟨e, hchosen.mem, hx.1, lt_of_lt_of_le hx.2 hchosen.fits⟩

/-- **A suitable run is found and handed out exactly if `GuardsFit`.** -/
theorem servesGuarded_iff (ha : RangeSet.Canonical a.vaddrs.entries) (hcount : 1 ≤ count.toNat)
    (hrun : ∃ q, a.SuitableRun S count headGuard tailGuard q) :
    a.ServesGuarded S count headGuard tailGuard ↔ a.GuardsFit S count headGuard tailGuard := by
  constructor
  · intro h
    obtain ⟨g, a', _, _, hok, _⟩ := h hrun
    exact guardsFit_of_ok ha hcount hok
  · exact fun h => h.serves ha hcount

theorem suitableRun_lowPages : lowPages.SuitableRun .Size4KiB 2 true true 12288 where
  aligned := by decide
  guard_le := by decide
  free := by
    intro x hx
    rw [mem_Ico] at hx
    have hlow : 8192 ≤ x := hx.1
    have hhigh : x < 24576 := hx.2
    exact IntervalList.mem_cover.2 ⟨⟨8192, 65535⟩, List.mem_cons_self, hlow, hhigh.trans (by decide)⟩

/-- Two pages with both guards, from the third page on. -/
theorem servesGuarded_lowPages : lowPages.ServesGuarded .Size4KiB 2 true true := by
  refine (servesGuarded_iff (by decide) (by decide) ⟨12288, suitableRun_lowPages⟩).2 ?_
  refine ⟨fun _ => rfl, by decide, by decide, fun e he => ?_⟩
  cases List.mem_singleton.1 he.mem
  exact ⟨by decide, by decide, fun _ => by decide⟩

theorem largePages_le : [(⟨0x200000, 0x7fffff⟩ : Range)].length ≤ 256 := by decide

/-- The second, third and fourth 2 MiB are free. -/
def largePages : PageAllocator := ⟨⟨[⟨0x200000, 0x7fffff⟩], largePages_le⟩⟩

theorem suitableRun_largePages : largePages.SuitableRun .Size2MiB 1 true false 0x400000 where
  aligned := by decide
  guard_le := by decide
  free := by
    intro x hx
    rw [mem_Ico] at hx
    have hlow : 0x3ff000 ≤ x := hx.1
    have hhigh : x < 0x600000 := hx.2
    refine IntervalList.mem_cover.2 ⟨⟨0x200000, 0x7fffff⟩, List.mem_cons_self, ?_, hhigh.trans (by decide)⟩
    exact le_trans (by decide) hlow

/-- A page of 2 MiB with a head guard is not found, though there is room for it. -/
theorem not_servesGuarded_largePages : RangeSet.Canonical largePages.vaddrs.entries ∧
    ¬ largePages.ServesGuarded .Size2MiB 1 true false :=
  ⟨by decide, not_serves_of_large rfl (by decide) ⟨_, suitableRun_largePages⟩⟩
end PageAllocator
end WasabiOS
