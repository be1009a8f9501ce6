import Mathlib.Tactic

/-!
# Four-state vectors

A simulator's `logic`/`reg` vector has four values per bit: `0`, `1`, `x` and `z`.  They are kept
the way simulators keep them, as a pair of bit planes: a bit of `bval` says that the bit is `x` or
`z`, and the bit of `aval` then says which.

* `LogicVec.ofBits` is the assignment of a two-state value to a four-state variable.
* `LogicVec.toBits` is the assignment back, in which every `x` and `z` becomes `0`.
* `LogicVec.resize` is what a port or an assignment of unequal width does: truncate or extend
  with zeros.
-/

namespace FourState

/-- A vector of `w` four-state bits. -/
structure LogicVec (w : ℕ) where
  aval : BitVec w
  bval : BitVec w
  deriving DecidableEq

namespace LogicVec

variable {w v : ℕ}

/-- A two-state value, seen as a four-state one. -/
def ofBits (b : BitVec w) : LogicVec w := ⟨b, 0#w⟩

/-- The two-state value of a vector: unknown bits read as `0`. -/
def toBits (l : LogicVec w) : BitVec w := l.aval &&& ~~~l.bval

/-- `'x`, every bit unknown. -/
def unknown (w : ℕ) : LogicVec w := ⟨BitVec.allOnes w, BitVec.allOnes w⟩

/-- Truncation or extension with zeros to width `v`. -/
def resize (v : ℕ) (l : LogicVec w) : LogicVec v := ⟨l.aval.setWidth v, l.bval.setWidth v⟩

@[simp] lemma toBits_ofBits (b : BitVec w) : (ofBits b).toBits = b := by
  simp [ofBits, toBits]

@[simp] lemma toBits_unknown : (unknown w).toBits = 0#w := by
  simp [unknown, toBits]

@[simp] lemma resize_self (l : LogicVec w) : l.resize w = l := by
  simp [resize]

@[simp] lemma resize_ofBits (b : BitVec w) : (ofBits b).resize v = ofBits (b.setWidth v) := by
  simp [resize, ofBits]

lemma toBits_resize (l : LogicVec w) : (l.resize v).toBits = l.toBits.setWidth v := by
  ext i hi
  by_cases h : i < w
  · simp [resize, toBits, h]
  · simp [resize, toBits, h, BitVec.getLsbD_of_ge l.aval i (Nat.le_of_not_lt h)]

lemma ofBits_injective : Function.Injective (ofBits : BitVec w → LogicVec w) := by
  intro b c h
  rw [← toBits_ofBits b, h, toBits_ofBits]

@[simp] lemma ofBits_inj {b c : BitVec w} : ofBits b = ofBits c ↔ b = c :=
  ofBits_injective.eq_iff

end LogicVec

end FourState
