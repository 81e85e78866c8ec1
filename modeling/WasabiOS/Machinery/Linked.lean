import WasabiOS.Machinery.Prog

/-!
# Machinery/Linked — doubly linked lists in a memory

A memory maps addresses to nodes; a node carries two links (`Links`).  `Segment m prior first l last
after` says that the nodes of `l` are linked both ways from `first` to `after`: the first one points
back to `prior`, and `last` is the one before `after`.  Segments compose (`segment_append`), so an edit
is local: `Segment.setAfter` and `Segment.setBefore` move one end, and from these come pushing
(`Segment.push`) and unlinking (`Segment.unlink`).

`walk` follows the forward links to the first node that satisfies a test.
-/

namespace Machinery
open List Function Option

/-- The two links of a node. -/
structure Links (κ ν : Type) where
  next : ν → Option κ
  prev : ν → Option κ
  setNext : Option κ → ν → ν
  setPrev : Option κ → ν → ν
  next_setNext : ∀ p v, next (setNext p v) = p
  prev_setNext : ∀ p v, prev (setNext p v) = prev v
  next_setPrev : ∀ p v, next (setPrev p v) = next v
  prev_setPrev : ∀ p v, prev (setPrev p v) = p

namespace Links
variable {κ ν : Type} (L : Links κ ν)

/-- The nodes `l`, linked both ways. -/
def Segment (m : κ → Option ν) : Option κ → Option κ → List κ → Option κ → Option κ → Prop
  | prior, first, [], last, after => prior = last ∧ first = after
  | prior, first, a :: l, last, after =>
    first = some a ∧ ∃ v, m a = some v ∧ L.prev v = prior ∧ Segment m (some a) (L.next v) l last after

/-- The first node from `first` on that satisfies `p`. -/
def walk (m : κ → Option ν) (p : ν → Bool) : ℕ → Option κ → Checked (Option κ)
  | 0, _ => .error .diverge
  | _ + 1, none => .ok none
  | fuel + 1, some a =>
    match m a with
    | none => .error .undefined
    | some v => if p v then .ok (some a) else walk m p fuel (L.next v)

variable {L} {m m' : κ → Option ν} {prior first last after : Option κ} {l l1 l2 : List κ} {a : κ} {v : ν}

theorem segment_append : L.Segment m prior first (l1 ++ l2) last after ↔
    ∃ p q, L.Segment m prior first l1 p q ∧ L.Segment m p q l2 last after := by
  induction l1 generalizing prior first with
  | nil =>
    constructor
    · exact fun h => ⟨prior, first, ⟨rfl, rfl⟩, h⟩
    · rintro ⟨p, q, ⟨rfl, rfl⟩, h⟩
      exact h
  | cons a l1 ih =>
    constructor
    · rintro ⟨hfirst, v, hv, hprev, hrest⟩
      obtain ⟨p, q, hl1, hl2⟩ := ih.1 hrest
      exact ⟨p, q, ⟨hfirst, v, hv, hprev, hl1⟩, hl2⟩
    · rintro ⟨p, q, ⟨hfirst, v, hv, hprev, hl1⟩, hl2⟩
      exact ⟨hfirst, v, hv, hprev, ih.2 ⟨p, q, hl1, hl2⟩⟩

theorem segment_singleton : L.Segment m prior first [a] last after ↔
    first = some a ∧ last = some a ∧ ∃ v, m a = some v ∧ L.prev v = prior ∧ L.next v = after := by
  constructor
  · rintro ⟨hfirst, v, hv, hprev, hlast, hnext⟩
    exact ⟨hfirst, hlast.symm, v, hv, hprev, hnext⟩
  · rintro ⟨hfirst, hlast, v, hv, hprev, hnext⟩
    exact ⟨hfirst, v, hv, hprev, hlast.symm, hnext⟩

section
variable (h : L.Segment m prior first l last after)
include h

/-- A segment reads the links of its own nodes. -/
theorem Segment.congr
    (hm : ∀ a ∈ l, ∀ v, m a = some v → ∃ v', m' a = some v' ∧ L.next v' = L.next v ∧ L.prev v' = L.prev v) :
    L.Segment m' prior first l last after := by
  induction l generalizing prior first with
  | nil => exact h
  | cons a l ih =>
    obtain ⟨hfirst, v, hv, hprev, hrest⟩ := h
    obtain ⟨v', hv', hnext', hprev'⟩ := hm a mem_cons_self v hv
    refine ⟨hfirst, v', hv', hprev'.trans hprev, ?_⟩
    rw [hnext']
    exact ih hrest fun b hb => hm b (mem_cons_of_mem a hb)

/-- …and of no others. -/
theorem Segment.frame [DecidableEq κ] (ha : a ∉ l)
    (w : Option ν) : L.Segment (Function.update m a w) prior first l last after := by
  refine h.congr fun b hb v hv => ⟨v, ?_, rfl, rfl⟩
  have hne : b ≠ a := fun heq => ha (heq ▸ hb)
  rw [update_of_ne hne]
  exact hv

theorem Segment.last_mem : (l = [] ∧ prior = last ∧ first = after) ∨ ∃ l0 b, l = l0 ++ [b] ∧ last = some b := by
  rcases eq_nil_or_concat l with rfl | ⟨l0, b, rfl⟩
  · exact .inl ⟨rfl, h⟩
  · rw [concat_eq_append] at h ⊢
    obtain ⟨p, q, -, hb⟩ := segment_append.1 h
    exact .inr ⟨l0, b, rfl, (segment_singleton.1 hb).2.1⟩
end

/-- The neighbours of a node. -/
theorem Segment.neighbours (h : L.Segment m none first (l1 ++ a :: l2) last none) (hv : m a = some v) :
    (∀ p, L.prev v = some p → p ∈ l1) ∧ ∀ q, L.next v = some q → q ∈ l2 := by
  obtain ⟨p, q, hl1, -, w, hw, hprev, hl2⟩ := segment_append.1 h
  cases hv.symm.trans hw
  constructor
  · rintro b hb
    rcases hl1.last_mem with ⟨-, rfl, -⟩ | ⟨l0, c, rfl, rfl⟩
    · exact absurd (hprev.symm.trans hb) nofun
    · rw [← Option.some.inj (hprev.symm.trans hb)]
      exact mem_append_cons_self
  · rintro b hb
    cases l2 with
    | nil => exact absurd (hl2.2.symm.trans hb) nofun
    | cons c l2 =>
      rw [← Option.some.inj (hl2.1.symm.trans hb)]
      exact mem_cons_self

section Edit
variable [DecidableEq κ] {p : Option κ} {f : ν → ν}

/-- The node at a link, changed. -/
def adjust (f : ν → ν) (m : κ → Option ν) : Option κ → κ → Option ν
  | none => m
  | some a => Function.update m a ((m a).map f)

theorem adjust_of_ne (h : p ≠ some a) : adjust f m p a = m a := by
  cases p with
  | none => rfl
  | some b => exact update_of_ne (fun heq => h (congrArg some heq.symm)) ..

theorem adjust_self (h : m a = some v) : adjust f m (some a) a = some (f v) := by
  rw [adjust, update_self, h]
  rfl

theorem adjust_some (h : m a = some v) : adjust f m p a = some v ∨ adjust f m p a = some (f v) := by
  by_cases hp : p = some a
  · exact .inr (hp ▸ adjust_self h)
  · exact .inl ((adjust_of_ne hp).trans h)

/-- A segment does not see an adjusted node that is not one of its own. -/
theorem Segment.frame_adjust (h : L.Segment m prior first l last after)
    (hp : ∀ a ∈ l, p ≠ some a) : L.Segment (adjust f m p) prior first l last after :=
  h.congr fun a ha v hv => ⟨v, (adjust_of_ne (hp a ha)).trans hv, rfl, rfl⟩

/-- The last node is given another successor. -/
theorem Segment.setAfter (h : L.Segment m none first l last after) (hl : l.Nodup) (q : Option κ) :
    L.Segment (adjust (L.setNext q) m last) none (if last = none then q else first) l last q := by
  rcases h.last_mem with ⟨rfl, rfl, -⟩ | ⟨l0, b, rfl, rfl⟩
  · exact ⟨rfl, if_pos rfl⟩
  · rw [if_neg nofun]
    obtain ⟨p, r, hl0, hb⟩ := segment_append.1 h
    obtain ⟨hr, -, v, hv, hprev, -⟩ := segment_singleton.1 hb
    refine segment_append.2 ⟨p, r, hl0.frame_adjust fun a ha heq => ?_, ?_⟩
    · obtain ⟨-, -, hdisjoint⟩ := nodup_append.1 hl
      exact hdisjoint a ha b mem_cons_self (Option.some.inj heq).symm
    · exact segment_singleton.2 ⟨hr, rfl, _, adjust_self hv, (L.prev_setNext q v).trans hprev, L.next_setNext q v⟩

/-- The first node is given another predecessor. -/
theorem Segment.setBefore (h : L.Segment m prior first l last none) (hl : l.Nodup) (p : Option κ) :
    ∃ last', L.Segment (adjust (L.setPrev p) m first) p first l last' none := by
  cases l with
  | nil =>
    obtain ⟨-, rfl⟩ := h
    exact ⟨p, rfl, rfl⟩
  | cons a l =>
    obtain ⟨rfl, v, hv, -, hrest⟩ := h
    refine ⟨last, rfl, _, adjust_self hv, L.prev_setPrev p v, ?_⟩
    rw [L.next_setPrev]
    exact hrest.frame_adjust fun b hb heq => (nodup_cons.1 hl).1 (Option.some.inj heq ▸ hb)

/-- Put a new node in front. -/
def push (a : κ) (v : ν) (first : Option κ) (m : κ → Option ν) : κ → Option ν :=
  adjust (L.setPrev (some a)) (Function.update m a (some (L.setNext first v))) first

theorem Segment.push (h : L.Segment m none first l last none) (hl : l.Nodup) (ha : a ∉ l) (hv : L.prev v = none) :
    ∃ last', L.Segment (L.push a v first m) none (some a) (a :: l) last' none := by
  obtain ⟨last', hrest⟩ := (h.frame ha (some (L.setNext first v))).setBefore hl (some a)
  have hne : first ≠ some a := by
    intro heq
    cases l with
    | nil => exact absurd (h.2.symm.trans heq) nofun
    | cons b l => exact ha (Option.some.inj (h.1.symm.trans heq) ▸ mem_cons_self)
  refine ⟨last', rfl, L.setNext first v, ?_, (L.prev_setNext first v).trans hv, ?_⟩
  · rw [Links.push, adjust_of_ne hne, update_self]
  · rw [L.next_setNext]
    exact hrest

/-- Take a node with links `v` out. -/
def unlink (v : ν) (m : κ → Option ν) : κ → Option ν :=
  adjust (L.setPrev (L.prev v)) (adjust (L.setNext (L.next v)) m (L.prev v)) (L.next v)

/-- Where a list starts once a node with links `v` is out. -/
def firstWithout (v : ν) (first : Option κ) : Option κ := if L.prev v = none then L.next v else first

theorem Segment.unlink (h : L.Segment m none first (l1 ++ a :: l2) last none)
    (hl : (l1 ++ a :: l2).Nodup) (hv : m a = some v) :
    ∃ last', L.Segment (L.unlink v m) none (L.firstWithout v first) (l1 ++ l2) last' none := by
  obtain ⟨p, q, hl1, -, w, hw, hprev, hl2⟩ := segment_append.1 h
  cases hv.symm.trans hw
  obtain ⟨hnodup1, hnodup, hdisjoint⟩ := nodup_append.1 hl
  obtain ⟨-, hnodup2⟩ := nodup_cons.1 hnodup
  rw [Links.unlink, Links.firstWithout, hprev]
  have hfront := hl1.setAfter hnodup1 (L.next v)
  have hprior : ∀ b ∈ l2, p ≠ some b := by
    intro b hb heq
    rcases hl1.last_mem with ⟨-, rfl, -⟩ | ⟨l0, c, rfl, hlast⟩
    · cases heq
    · have hc : c ∈ l0 ++ [c] := mem_append_cons_self
      exact hdisjoint c hc b (mem_cons_of_mem a hb) (Option.some.inj (hlast.symm.trans heq))
  obtain ⟨last', hback⟩ := (hl2.frame_adjust hprior).setBefore hnodup2 p
  refine ⟨last', segment_append.2 ⟨p, L.next v, hfront.frame_adjust fun b hb heq => ?_, hback⟩⟩
  cases l2 with
  | nil => exact absurd (hl2.2.symm.trans heq) nofun
  | cons c l2 =>
    have hc : c ∈ a :: c :: l2 := mem_cons_of_mem a mem_cons_self
    exact hdisjoint b hb c hc (Option.some.inj (heq.symm.trans hl2.1))
end Edit

/-- A walk along a list finds what a search of the list finds. -/
theorem Segment.walk (h : L.Segment m prior first l last none) (p : ν → Bool) {fuel : ℕ}
    (hfuel : l.length < fuel) : L.walk m p fuel first = .ok (l.find? fun a => (m a).any p) := by
  induction l generalizing prior first fuel with
  | nil =>
    obtain ⟨fuel, rfl⟩ := Nat.exists_eq_succ_of_ne_zero (Nat.ne_zero_of_lt hfuel)
    obtain ⟨-, rfl⟩ := h
    rfl
  | cons a l ih =>
    obtain ⟨fuel, rfl⟩ := Nat.exists_eq_succ_of_ne_zero (Nat.ne_zero_of_lt hfuel)
    obtain ⟨rfl, v, hv, -, hrest⟩ := h
    rw [Links.walk, find?_cons]
    simp only [hv, any_some]
    cases p v with
    | true => rfl
    | false => exact ih hrest (Nat.lt_of_succ_lt_succ hfuel)
end Links
end Machinery
