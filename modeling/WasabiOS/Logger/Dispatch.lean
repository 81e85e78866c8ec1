import Mathlib.Algebra.Order.Ring.Nat
import WasabiOS.Machinery.KeyedList

/-!
# Logger/Dispatch — the log level of a module

The rules are sorted by the length of their names, and the first one that matches a target decides.  A name matches
by its characters alone, so a rule also decides for other modules whose names start with them; and the empty name,
whose length wraps to zero, comes first instead of last.
-/

open Machinery
namespace WasabiOS
open List Option Function

/-- `str`: at most `isize::MAX` bytes -/
abbrev Str := {bytes : List UInt8 // bytes.length < 2 ^ 63}

/-- `log::LevelFilter` -/
inductive LevelFilter where
  | off
  | error
  | warn
  | info
  | debug
  | trace
  deriving DecidableEq, Repr

/-- A name that ends in `!` (33) also matches the target before it. -/
def ruleMatches (moduleName target : Str) : Bool :=
  moduleName.1.isPrefixOf target || (moduleName.1.getLast? = some 33 &&
    moduleName.1.length = target.1.length + 1 && target.1.isPrefixOf moduleName)

/-- A logger that dispatches log calls, as far as it picks their level. -/
structure DispatchLogger where
  /-- The default logging level -/
  defaultLevel : LevelFilter
  /-- The specific logging level for each module -/
  moduleLevels : List (Str × LevelFilter)

/-- A call of the setup. -/
inductive LogSetup where
  | withLevel (level : LevelFilter)
  | withModuleLevel (target : Str) (level : LevelFilter)

namespace DispatchLogger

def new : DispatchLogger := ⟨.info, []⟩

/-- `Vec::swap_remove`: the last element takes the place of the removed one -/
def swapRemove {α : Type} (l : List α) (i : ℕ) : List α := ((l.getLast?.map (l.set i)).getD l).dropLast

/-- The rules without the one for `target` -/
def dropRule (target : Str) (rules : List (Str × LevelFilter)) : List (Str × LevelFilter) :=
  match rules.findIdx? fun r => r.1 = target with
  | some oldPosition => swapRemove rules oldPosition
  | none => rules

/-- `with_level` and `with_module_level` -/
def setup (s : DispatchLogger) : LogSetup → DispatchLogger
  | .withLevel level => { s with defaultLevel := level }
  | .withModuleLevel target level => { s with moduleLevels := dropRule target s.moduleLevels ++ [(target, level)] }

/-- `name.len().wrapping_neg()` -/
def sortKey (name : Str) : ℕ := (2 ^ 64 - name.1.length) % 2 ^ 64

/-- `init`: `sort_unstable_by_key` leaves rules of one key in any order. -/
structure Init (s s' : DispatchLogger) : Prop where
  defaultLevel : s'.defaultLevel = s.defaultLevel
  perm : s'.moduleLevels.Perm s.moduleLevels
  sorted : s'.moduleLevels.Pairwise fun r r' => sortKey r.1 ≤ sortKey r'.1

/-- `module_min_log_level` of `enabled` -/
def moduleMinLogLevel (s : DispatchLogger) (target : Str) : LevelFilter :=
  ((s.moduleLevels.find? fun r => ruleMatches r.1 target).map Prod.snd).getD s.defaultLevel
end DispatchLogger

/-- The levels that are set; the last setting wins. -/
structure LogLevels where
  default : LevelFilter
  ofModule : Str → Option LevelFilter

namespace LogLevels

def set (c : LogLevels) : LogSetup → LogLevels
  | .withLevel level => { c with default := level }
  | .withModuleLevel target level => { c with ofModule := Function.update c.ofModule target (some level) }

def ofCalls (calls : List LogSetup) : LogLevels := calls.foldl set ⟨.info, fun _ => none⟩

/-- The module is the target, or an ancestor of it: `::` (58) follows its name. -/
def Contains (moduleName target : Str) : Prop := moduleName = target ∨ moduleName.1 ++ [58, 58] <+: target.1

/-- The level of the most specific module, or the default level. -/
inductive Selects (c : LogLevels) (target : Str) : LevelFilter → Prop
  | ofModule {m : Str} {level : LevelFilter} (hset : c.ofModule m = some level) (hm : Contains m target)
      (hmost : ∀ m', c.ofModule m' ≠ none → Contains m' target → m'.1.length ≤ m.1.length) : Selects c target level
  | default (hnone : ∀ m, c.ofModule m ≠ none → ¬ Contains m target) : Selects c target c.default

/-- The longest name that matches; the empty name goes before all others. -/
structure Decides (c : LogLevels) (target m : Str) (level : LevelFilter) : Prop where
  isSet : c.ofModule m = some level
  isMatch : ruleMatches m target = true
  first : ∀ m', c.ofModule m' ≠ none → ruleMatches m' target = true →
    DispatchLogger.sortKey m ≤ DispatchLogger.sortKey m'
end LogLevels

namespace DispatchLogger
open LogLevels
variable {α : Type} {l1 l2 : List α} {x : α} {target : Str} {rules : List (Str × LevelFilter)}

theorem swapRemove_perm : (swapRemove (l1 ++ x :: l2) l1.length).Perm (l1 ++ l2) := by
  rcases l2.eq_nil_or_concat' with rfl | ⟨l, y, rfl⟩
  · simp [swapRemove]
  · have hlast : ((l1 ++ x :: l) ++ [y]).getLast? = some y := getLast?_concat
    rw [append_assoc, cons_append] at hlast
    have hset : (l1 ++ x :: (l ++ [y])).set l1.length y = (l1 ++ y :: l) ++ [y] := by simp
    rw [swapRemove, hlast, map_some, getD_some, hset, dropLast_concat]
    exact (perm_append_singleton y l).symm.append_left l1

/-- Names are set once, so that one position is all there is to remove. -/
theorem dropRule_perm (hnodup : (rules.map Prod.fst).Nodup) :
    (dropRule target rules).Perm (rules.filter fun r => r.1 ≠ target) := by
  rw [dropRule]
  cases hidx : rules.findIdx? fun r => r.1 = target with
  | none =>
    have hall : ∀ r ∈ rules, r.1 ≠ target := by simpa using findIdx?_eq_none_iff.1 hidx
    rw [filter_eq_self.2 fun r hr => decide_eq_true (hall r hr)]
  | some i =>
    obtain ⟨l1, x, l2, rfl, rfl, hx⟩ := split_findIdx? hidx
    obtain rfl : x.1 = target := of_decide_eq_true hx
    have hmiddle : (x.1 :: (l1 ++ l2).map Prod.fst).Nodup := (perm_middle.map Prod.fst).nodup_iff.1 hnodup
    have hother : ∀ r ∈ l1 ++ l2, r.1 ≠ x.1 := fun r hr heq => (nodup_cons.1 hmiddle).1 (heq ▸ mem_map_of_mem hr)
    refine swapRemove_perm.trans ((List.Perm.of_eq ?_).trans (perm_middle.filter _).symm)
    rw [filter_cons_of_neg (by simp), filter_eq_self.2 fun r hr => decide_eq_true (hother r hr)]

/-- The rules of the logger are the levels that are set. -/
structure Holds (s : DispatchLogger) (c : LogLevels) : Prop where
  defaultLevel : s.defaultLevel = c.default
  nodup : (s.moduleLevels.map Prod.fst).Nodup
  rules : ∀ m level, (m, level) ∈ s.moduleLevels ↔ c.ofModule m = some level

variable {s s' : DispatchLogger} {c : LogLevels} {target m m' : Str}

theorem Holds.setup (h : Holds s c) (call : LogSetup) : Holds (s.setup call) (c.set call) := by
  cases call with
  | withLevel level => exact ⟨rfl, h.nodup, h.rules⟩
  | withModuleLevel target level =>
    have hperm : (dropRule target s.moduleLevels ++ [(target, level)]).Perm
        ((target, level) :: s.moduleLevels.filter fun r => r.1 ≠ target) :=
      (perm_append_singleton _ _).trans ((dropRule_perm h.nodup).cons _)
    refine ⟨h.defaultLevel, (hperm.map Prod.fst).nodup_iff.2 (nodup_cons.2 ⟨?_, ?_⟩), fun m level' => ?_⟩
    · simp
    · exact h.nodup.sublist (filter_sublist.map _)
    · rw [DispatchLogger.setup, hperm.mem_iff, mem_cons, mem_filter, h.rules, LogLevels.set]
      by_cases hm : m = target
      · simp [hm, eq_comm]
      · simp [hm, update_of_ne]

theorem holds_foldl (calls : List LogSetup) (h : Holds s c) :
    Holds (calls.foldl DispatchLogger.setup s) (calls.foldl LogLevels.set c) := by
  induction calls generalizing s c with
  | nil => exact h
  | cons call calls ih => exact ih (h.setup call)

theorem Holds.init (h : Holds s c) (hinit : Init s s') : Holds s' c where
  defaultLevel := hinit.defaultLevel.trans h.defaultLevel
  nodup := (hinit.perm.map Prod.fst).nodup_iff.2 h.nodup
  rules m level := hinit.perm.mem_iff.trans (h.rules m level)

theorem ruleMatches_of_contains (h : Contains m target) : ruleMatches m target = true := by
  have hprefix : m.1 <+: target.1 := h.elim (fun h => h ▸ prefix_refl _) (prefix_append _ _).trans
  rw [ruleMatches, isPrefixOf_iff_prefix.2 hprefix, Bool.true_or]

/-- What a matching name is. -/
theorem ruleMatches_iff : ruleMatches m target = true ↔ m.1 <+: target.1 ∨ m.1 = target.1 ++ [33] := by
  rw [ruleMatches, Bool.or_eq_true, isPrefixOf_iff_prefix]
  simp only [Bool.and_eq_true, decide_eq_true_eq, isPrefixOf_iff_prefix]
  refine or_congr_right ⟨?_, fun h => ?_⟩
  · rintro ⟨⟨hlast, hlen⟩, rest, hrest⟩
    rw [← hrest, length_append, add_left_cancel_iff, length_eq_one_iff] at hlen
    obtain ⟨b, rfl⟩ := hlen
    rw [← hrest, getLast?_concat, Option.some.injEq] at hlast
    rw [← hrest, hlast]
  · simp [h]

/-- Of the names that match, one is the first. -/
theorem eq_of_sortKey_eq (hm : ruleMatches m target = true) (hm' : ruleMatches m' target = true)
    (hkey : sortKey m = sortKey m') : m = m' := by
  have hlen : m.1.length = m'.1.length := by
    have := m.2
    have := m'.2
    rw [sortKey, sortKey] at hkey
    omega
  refine Subtype.ext ?_
  rcases ruleMatches_iff.1 hm with h | h <;> rcases ruleMatches_iff.1 hm' with h' | h'
  · exact (prefix_of_prefix_length_le h h' hlen.le).eq_of_length hlen
  · have := h.length_le
    rw [hlen, h', length_append, length_singleton] at this
    omega
  · have := h'.length_le
    rw [← hlen, h, length_append, length_singleton] at this
    omega
  · rw [h, h']

/-- The logger applies the level of the rule that decides, or the default level. -/
theorem moduleMinLogLevel_cases (h : Holds s c) (hsorted : s.moduleLevels.Pairwise fun r r' => sortKey r.1 ≤ sortKey r'.1)
    (target : Str) : (∃ m, c.Decides target m (s.moduleMinLogLevel target)) ∨
      s.moduleMinLogLevel target = c.default ∧ ∀ m, c.ofModule m ≠ none → ruleMatches m target = false := by
  have hrule : ∀ m, c.ofModule m ≠ none → ∃ level, (m, level) ∈ s.moduleLevels := fun m hm => by
    obtain ⟨level, hlevel⟩ := ne_none_iff_exists'.1 hm
    exact ⟨level, (h.rules m level).2 hlevel⟩
  rw [moduleMinLogLevel]
  cases hfind : s.moduleLevels.find? fun r => ruleMatches r.1 target with
  | none =>
    refine .inr ⟨h.defaultLevel, fun m hm => ?_⟩
    obtain ⟨level, hmem⟩ := hrule m hm
    simpa using find?_eq_none.1 hfind _ hmem
  | some r =>
    obtain ⟨hmatch, before, after, hlist, hbefore⟩ := find?_eq_some_iff_append.1 hfind
    refine .inl ⟨r.1, (h.rules _ _).1 (mem_of_find?_eq_some hfind), hmatch, fun m' hm' hmatch' => ?_⟩
    obtain ⟨level, hmem⟩ := hrule m' hm'
    rw [hlist] at hmem hsorted
    rcases mem_focus.1 hmem with heq | hmem | hmem
    · exact (congrArg (fun r => sortKey r.1) heq).ge
    · have hno := hbefore _ hmem
      rw [hmatch'] at hno
      cases hno
    · exact (pairwise_cons.1 (pairwise_append.1 hsorted).2.1).1 _ hmem

theorem length_foo : [(102 : UInt8), 111, 111].length < 2 ^ 63 := by decide

theorem length_foobar : [(102 : UInt8), 111, 111, 98, 97, 114].length < 2 ^ 63 := by decide

def foo : Str := ⟨[102, 111, 111], length_foo⟩

def foobar : Str := ⟨[102, 111, 111, 98, 97, 114], length_foobar⟩

theorem init_traceFoo : Init ([.withModuleLevel foo .trace].foldl DispatchLogger.setup new) ⟨.info, [(foo, .trace)]⟩ :=
  ⟨rfl, .refl _, pairwise_singleton ..⟩

end DispatchLogger
end WasabiOS
