import Mathlib.Data.List.Basic
import Mathlib.Order.Lattice

/-!
# Machinery/KeyedList — lists sorted by a key, as finite maps

A list whose elements carry distinct keys is a finite map (`lookup`).  `Inserted key c l l'` says that
`l'` is `l` with a new element in it; reading it from right to left it says that an element was taken
out.  Where the element went does not matter to the map (`Inserted.lookup_eq`), which is what lets a
search tree move elements between its leaves.

Positions are handled by splitting the list there: an index is the length of what comes before it.
-/

namespace Machinery
open List Option Function
variable {i : ℕ}

/-! ## Splitting at a position -/

section Split
variable {α : Type*} {l : List α} {p : α → Bool}

/-- Who is in a list with a focused element. -/
theorem mem_focus {x y : α} {l1 l2 : List α} : x ∈ l1 ++ y :: l2 ↔ x = y ∨ x ∈ l1 ∨ x ∈ l2 := by
  simp only [mem_append, mem_cons]
  tauto

theorem split_at {x : α} (h : l[i]? = some x) : ∃ l1 l2, l1.length = i ∧ l = l1 ++ x :: l2 := by
  obtain ⟨hi, rfl⟩ := List.getElem?_eq_some_iff.1 h
  refine ⟨l.take i, l.drop (i + 1), List.length_take_of_le (le_of_lt hi), ?_⟩
  rw [List.getElem_cons_drop, List.take_append_drop]

theorem split_findIdx? (h : l.findIdx? p = some i) : ∃ l1 x l2, l1.length = i ∧ l = l1 ++ x :: l2 ∧ p x = true := by
  obtain ⟨hi, hp, -⟩ := findIdx?_eq_some_iff_getElem.1 h
  obtain ⟨l1, l2, hlen, hl⟩ := split_at (getElem?_eq_getElem hi)
  exact ⟨l1, l[i], l2, hlen, hl, hp⟩

/-- The first position where `p` holds is the one behind a part where it does not. -/
theorem findIdx?_append_cons {x : α} {l2 : List α} (hx : p x = true) :
    ∀ {l1 : List α}, (∀ y ∈ l1, p y = false) → (l1 ++ x :: l2).findIdx? p = some l1.length
  | [], _ => by simp [findIdx?_cons, hx]
  | y :: l1, h => by
    rw [cons_append, findIdx?_cons, h y mem_cons_self, findIdx?_append_cons hx fun z hz => h z (mem_cons_of_mem _ hz)]
    rfl

theorem eraseIdx_append_cons {x : α} {l2 : List α} : ∀ {l1 : List α}, (l1 ++ x :: l2).eraseIdx l1.length = l1 ++ l2
  | [] => rfl
  | y :: l1 => by rw [cons_append, length_cons, eraseIdx_cons_succ, eraseIdx_append_cons, cons_append]

theorem insertIdx_append_length {x : α} {l2 : List α} :
    ∀ {l1 : List α}, (l1 ++ l2).insertIdx l1.length x = l1 ++ x :: l2
  | [] => rfl
  | z :: l1 => by rw [cons_append, length_cons, insertIdx_succ_cons, insertIdx_append_length, cons_append]

theorem insertIdx_append_cons {x y : α} {l1 l2 : List α} :
    (l1 ++ y :: l2).insertIdx (l1.length + 1) x = l1 ++ y :: x :: l2 := by
  have h := @insertIdx_append_length _ x l2 (l1 ++ [y])
  simpa using h
end Split

namespace Keyed
variable {α κ : Type*}
section Lookup
variable [DecidableEq κ] (key : α → κ)

/-- The element with key `x`. -/
def lookup (x : κ) (l : List α) : Option α := l.find? fun a => key a = x

/-- `l'` is `l` with `c` somewhere in it, and no other element has the key of `c`. -/
def Inserted (c : α) (l l' : List α) : Prop := ∃ l1 l2, l = l1 ++ l2 ∧ l' = l1 ++ c :: l2 ∧ ∀ a ∈ l, key a ≠ key c

/-- `l'` is `l` with `c` in it, which may have taken the place of an element with its key. -/
def Upserted (c : α) (l l' : List α) : Prop :=
  ∃ rest, Inserted key c rest l' ∧ (l = rest ∨ ∃ old, key old = key c ∧ Inserted key old rest l)

variable {key} {l l' l1 l2 : List α} {c : α} {x : κ}

theorem lookup_append : lookup key x (l1 ++ l2) = (lookup key x l1).or (lookup key x l2) := find?_append

theorem lookup_eq_none : lookup key x l = none ↔ ∀ a ∈ l, key a ≠ x := by simp [lookup, find?_eq_none]

theorem lookup_middle (h1 : ∀ a ∈ l1, key a ≠ x) (h2 : ∀ a ∈ l2, key a ≠ x) :
    lookup key x (l1 ++ (l ++ l2)) = lookup key x l := by
  rw [lookup_append, lookup_append, lookup_eq_none.2 h1, lookup_eq_none.2 h2, or_none, none_or]

/-- **Inserting is updating the map.** -/
theorem Inserted.lookup_eq (h : Inserted key c l l') (x : κ) :
    lookup key x l' = if key c = x then some c else lookup key x l := by
  obtain ⟨l1, l2, rfl, rfl, hne⟩ := h
  by_cases hx : key c = x
  · have hnone : lookup key x l1 = none := lookup_eq_none.2 fun a ha => hx ▸ hne a (mem_append_left _ ha)
    rw [lookup_append, hnone, if_pos hx]
    simp [lookup, hx]
  · rw [lookup_append, lookup_append, if_neg hx]
    simp [lookup, hx]

omit [DecidableEq κ] in
theorem Inserted.context (h : Inserted key c l l') (h1 : ∀ a ∈ l1, key a ≠ key c)
    (h2 : ∀ a ∈ l2, key a ≠ key c) : Inserted key c (l1 ++ (l ++ l2)) (l1 ++ (l' ++ l2)) := by
  obtain ⟨m1, m2, rfl, rfl, hne⟩ := h
  refine ⟨l1 ++ m1, m2 ++ l2, by simp, by simp, fun a ha => ?_⟩
  rcases mem_append.1 ha with ha | ha
  · exact h1 a ha
  · exact (mem_append.1 ha).elim (hne a) (h2 a)

theorem Upserted.lookup_eq (h : Upserted key c l l') (x : κ) :
    lookup key x l' = if key c = x then some c else lookup key x l := by
  obtain ⟨rest, hnew, rfl | ⟨old, hkey, hold⟩⟩ := h
  · exact hnew.lookup_eq x
  · rw [hnew.lookup_eq, hold.lookup_eq, hkey]
    split_ifs <;> rfl

theorem Upserted.lookup_update (h : Upserted key c l l') :
    (fun x => lookup key x l') = Function.update (fun x => lookup key x l) (key c) (some c) := by
  funext x
  rw [h.lookup_eq, update_apply]
  exact if_congr eq_comm rfl rfl

theorem Inserted.lookup_erase (h : Inserted key c l l') :
    (fun x => lookup key x l) = Function.update (fun x => lookup key x l') (key c) none := by
  funext x
  rw [update_apply, h.lookup_eq]
  obtain ⟨-, -, -, -, hne⟩ := h
  split_ifs with hx hc
  · exact lookup_eq_none.2 (hx ▸ hne)
  · exact absurd hc.symm hx
  · rfl

omit [DecidableEq κ] in
theorem Upserted.context (h : Upserted key c l l') (h1 : ∀ a ∈ l1, key a ≠ key c)
    (h2 : ∀ a ∈ l2, key a ≠ key c) : Upserted key c (l1 ++ (l ++ l2)) (l1 ++ (l' ++ l2)) := by
  obtain ⟨rest, hnew, hold⟩ := h
  refine ⟨l1 ++ (rest ++ l2), hnew.context h1 h2, ?_⟩
  rcases hold with rfl | ⟨old, hkey, hold⟩
  · exact .inl rfl
  · exact .inr ⟨old, hkey, hold.context (hkey ▸ h1) (hkey ▸ h2)⟩
end Lookup

section Sorted
variable [LinearOrder κ] (key : α → κ)

/-- Strictly sorted by the key. -/
def Sorted (l : List α) : Prop := l.Pairwise fun a b => key a < key b

variable {key} {l l1 l2 : List α} {a c : α} {x : κ}

theorem sorted_append : Sorted key (l1 ++ l2) ↔ Sorted key l1 ∧ Sorted key l2 ∧ ∀ a ∈ l1, ∀ b ∈ l2, key a < key b :=
  pairwise_append

theorem sorted_cons : Sorted key (a :: l) ↔ (∀ b ∈ l, key a < key b) ∧ Sorted key l := pairwise_cons

/-- A sorted list has at most one element with a key, and finds it. -/
theorem Sorted.lookup_eq_some (h : Sorted key l) : lookup key x l = some a ↔ a ∈ l ∧ key a = x := by
  refine ⟨fun hfind => ?_, fun hmem => ?_⟩
  · obtain ⟨hkey, -⟩ := find?_eq_some_iff_append.1 hfind
    exact ⟨mem_of_find?_eq_some hfind, of_decide_eq_true hkey⟩
  · obtain ⟨hmem, rfl⟩ := hmem
    obtain ⟨l1, l2, rfl⟩ := append_of_mem hmem
    refine find?_eq_some_iff_append.2 ⟨decide_eq_true rfl, l1, l2, rfl, fun b hb => ?_⟩
    have hlt := (sorted_append.1 h).2.2 b hb a mem_cons_self
    rw [decide_eq_false hlt.ne]
    rfl

/-- In a sorted list without the key of `c`, its place is before the first larger one. -/
theorem Sorted.insert_place (h : Sorted key l) (hc : ∀ a ∈ l, key a ≠ x) :
    ∃ l1 l2, l = l1 ++ l2 ∧ (l.findIdx? fun a => x < key a).getD l.length = l1.length ∧
      (∀ a ∈ l1, key a < x) ∧ ∀ a ∈ l2, x < key a := by
  induction l with
  | nil => exact ⟨[], [], rfl, rfl, by simp, by simp⟩
  | cons a l ih =>
    obtain ⟨hal, hl⟩ := sorted_cons.1 h
    rcases lt_or_gt_of_ne (hc a mem_cons_self) with hax | hxa
    · obtain ⟨l1, l2, rfl, hidx, hlt, hgt⟩ := ih hl fun b hb => hc b (mem_cons_of_mem _ hb)
      refine ⟨a :: l1, l2, rfl, ?_, by simpa using ⟨hax, hlt⟩, hgt⟩
      rw [findIdx?_cons, decide_eq_false hax.not_gt, length_cons, length_cons, ← hidx]
      cases findIdx? (fun b => decide (x < key b)) (l1 ++ l2) <;> rfl
    · refine ⟨[], a :: l, rfl, by simp [findIdx?_cons, hxa], by simp, fun b hb => ?_⟩
      rcases mem_cons.1 hb with rfl | hb
      · exact hxa
      · exact hxa.trans (hal b hb)

theorem Sorted.le_getLast (h : Sorted key l) (hc : l.getLast? = some c) : ∀ a ∈ l, key a ≤ key c := by
  obtain ⟨l, rfl⟩ := getLast?_eq_some_iff.1 hc
  intro a ha
  rcases mem_append.1 ha with ha | ha
  · exact ((sorted_append.1 h).2.2 a ha c (mem_singleton_self c)).le
  · exact (congrArg key (mem_singleton.1 ha)).le

theorem Sorted.insert (h : Sorted key (l1 ++ l2)) (h1 : ∀ a ∈ l1, key a < key c)
    (h2 : ∀ a ∈ l2, key c < key a) : Sorted key (l1 ++ c :: l2) := by
  obtain ⟨hl1, hl2, hlt⟩ := sorted_append.1 h
  refine sorted_append.2 ⟨hl1, sorted_cons.2 ⟨h2, hl2⟩, fun a ha b hb => ?_⟩
  rcases mem_cons.1 hb with rfl | hb
  · exact h1 a ha
  · exact hlt a ha b hb

section
variable (h : Sorted key (l1 ++ a :: l2))
include h

theorem Sorted.replace (hac : key a = key c) : Sorted key (l1 ++ c :: l2) := by
  simp only [sorted_append, sorted_cons, mem_cons, forall_eq_or_imp, hac] at h ⊢
  exact h

theorem Sorted.inserted : Inserted key a (l1 ++ l2) (l1 ++ a :: l2) := by
  refine ⟨l1, l2, rfl, rfl, fun b hb => ?_⟩
  obtain ⟨-, h2, hlt⟩ := sorted_append.1 h
  rcases mem_append.1 hb with hb | hb
  · exact (hlt b hb a mem_cons_self).ne
  · exact ((sorted_cons.1 h2).1 b hb).ne'

theorem Sorted.upserted (hac : key a = key c) :
    Upserted key c (l1 ++ a :: l2) (l1 ++ c :: l2) :=
  ⟨l1 ++ l2, (h.replace hac).inserted, .inr ⟨a, hac, h.inserted⟩⟩
end

variable (key) in
/-- What a binary search of a sorted list returns: the position of the key, or else the place where it
belongs. -/
def search (x : κ) (l : List α) : Except ℕ ℕ :=
  match l.findIdx? fun a => key a = x with
  | some i => .ok i
  | none => .error ((l.findIdx? fun a => x < key a).getD l.length)

theorem search_eq_ok (h : search key x l = .ok i) : ∃ l1 a l2, l = l1 ++ a :: l2 ∧ l1.length = i ∧ key a = x := by
  unfold search at h
  split at h
  case h_1 j hj =>
    cases h
    obtain ⟨l1, a, l2, hlen, hl, ha⟩ := split_findIdx? hj
    exact ⟨l1, a, l2, hl, hlen, of_decide_eq_true ha⟩
  case h_2 => cases h

theorem search_eq_error (h : search key x l = .error i) (hl : Sorted key l) :
    ∃ l1 l2, l = l1 ++ l2 ∧ l1.length = i ∧ (∀ a ∈ l1, key a < x) ∧ ∀ a ∈ l2, x < key a := by
  unfold search at h
  split at h
  case h_1 => cases h
  case h_2 hnone =>
    have hne : ∀ a ∈ l, key a ≠ x := by
      intro a ha heq
      have hfalse := findIdx?_eq_none_iff.1 hnone a ha
      exact absurd heq (of_decide_eq_false hfalse)
    obtain ⟨l1, l2, hsplit, hidx, hlt, hgt⟩ := hl.insert_place hne
    exact ⟨l1, l2, hsplit, hidx.symm.trans (Except.error.inj h), hlt, hgt⟩

theorem Sorted.erase (h : Sorted key (l1 ++ a :: l2)) : Sorted key (l1 ++ l2) :=
  List.Pairwise.sublist ((List.Sublist.refl l1).append (sublist_cons_self a l2)) h
end Sorted
end Keyed
end Machinery
