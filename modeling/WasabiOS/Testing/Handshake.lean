import Mathlib.Data.List.Basic

/-!
# Testing/Handshake — waiting for the line `tests ready`

Builder and kernel drop the bytes they receive until the line is complete.  On a byte that does not fit both
start over, without asking whether that byte is the first of the line.
-/

namespace WasabiOS
open List
namespace Handshake

/-- `b"tests ready\n"` -/
def EXPECTED : List UInt8 := [116, 101, 115, 116, 115, 32, 114, 101, 97, 100, 121, 10]

/-- The loop: what is left of the bytes when the line is complete.  The position stays below the length of the
line. -/
def drain (position : ℕ) : List UInt8 → Option (List UInt8)
  | [] => none
  | c :: stream =>
    let position := if EXPECTED[position]? = some c then position + 1 else 0
    if position = EXPECTED.length then some stream else drain position stream

inductive HandshakeError where
  | read
  deriving DecidableEq, Repr

/-- `handshake`: what is not read yet, and the answer; the end of the stream is an error -/
def handshake (stream : List UInt8) : Except HandshakeError (List UInt8 × List UInt8) :=
  match drain 0 stream with
  | some unread => .ok (unread, EXPECTED)
  | none => .error .read

/-- `wait_for_test_ready_handshake`: the line that is sent, and what is not read yet; at the end of the bytes it
goes on waiting -/
def waitForTestReadyHandshake (stream : List UInt8) : List UInt8 × Option (List UInt8) := (EXPECTED, drain 0 stream)

/-- With `pre` before the line and `post` behind it, both sides stop at its end. -/
def Stops (pre post : List UInt8) : Prop := handshake (pre ++ EXPECTED ++ post) = .ok (post, EXPECTED) ∧
    (waitForTestReadyHandshake (pre ++ EXPECTED ++ post)).2 = some post

/-- One `t` before the line: its end is the end of the first occurrence, and it is missed. -/
theorem missed_after_t : ¬ EXPECTED <:+: [116] ++ EXPECTED.dropLast ∧ ¬ Stops [116] [] :=
  ⟨by decide, fun h => absurd h.2 (by decide)⟩

/-- Bytes that are read in blocks: each a part of the line from its start, and one byte that breaks it off. -/
inductive Restarts : List UInt8 → Prop
  | nil : Restarts []
  | block {k : ℕ} {b : UInt8} {rest : List UInt8} (hk : k < EXPECTED.length) (hb : EXPECTED[k]? ≠ some b)
      (hrest : Restarts rest) : Restarts (EXPECTED.take k ++ b :: rest)

variable {pre post stream : List UInt8} {k : ℕ}

theorem drain_take (hk : k ≤ EXPECTED.length) : drain 0 (EXPECTED.take k ++ stream) =
    if k = EXPECTED.length then some stream else drain k stream := by
  induction k generalizing stream with
  | zero => rfl
  | succ k ih =>
    rw [take_succ_eq_append_getElem (by omega), append_assoc, ih (by omega),
      if_neg (by omega), singleton_append, drain, if_pos (getElem?_eq_getElem (by omega))]

theorem Restarts.drain_append (h : Restarts pre) : drain 0 (pre ++ stream) = drain 0 stream := by
  induction h with
  | nil => rfl
  | block hk hb _ ih =>
    rw [append_assoc, drain_take (by omega), if_neg (by omega), cons_append, drain, if_neg hb]
    exact ih

/-- **The bytes that are dropped** before the line: with those of the line that are read already, blocks. -/
theorem restarts_of_drain (hk : k < EXPECTED.length) (h : drain k stream = some post) :
    ∃ pre, Restarts pre ∧ EXPECTED.take k ++ stream = pre ++ EXPECTED ++ post := by
  induction stream generalizing k with
  | nil => cases h
  | cons c stream ih =>
    rw [drain] at h
    by_cases hc : EXPECTED[k]? = some c
    · have htake : EXPECTED.take k ++ c :: stream = EXPECTED.take (k + 1) ++ stream := by
        rw [take_add_one, hc, Option.toList_some, append_assoc, singleton_append]
      rw [if_pos hc] at h
      rw [htake]
      split_ifs at h with hlen
      · obtain rfl := Option.some.inj h
        exact ⟨[], .nil, by rw [hlen, take_length, nil_append]⟩
      · exact ih (by omega) h
    · rw [if_neg hc, if_neg (by decide)] at h
      obtain ⟨pre, hpre, hstream⟩ := ih (by omega) h
      rw [take_zero, nil_append] at hstream
      exact ⟨_, .block hk hc hpre, by rw [hstream, append_assoc, append_assoc, append_assoc, cons_append]⟩

theorem stops_eq : Stops pre post ↔ drain 0 (pre ++ EXPECTED ++ post) = some post := by
  rw [Stops, handshake, waitForTestReadyHandshake]
  cases drain 0 (pre ++ EXPECTED ++ post) <;> simp

/-- **When the line is found**: exactly if what comes before it is made of blocks. -/
theorem stops_iff (pre post : List UInt8) : Stops pre post ↔ Restarts pre := by
  rw [stops_eq]
  constructor
  · intro h
    obtain ⟨found, hfound, heq⟩ := restarts_of_drain (by decide) h
    rw [take_zero, nil_append, append_assoc, append_assoc] at heq
    exact append_cancel_right heq ▸ hfound
  · intro h
    rw [append_assoc, h.drain_append]
    exact (drain_take (k := EXPECTED.length) (Nat.le_refl _)).trans (if_pos rfl)
end Handshake
end WasabiOS
