import Mathlib.Tactic

/-!
# Vectors that agree on their low bits

Addition, subtraction and the bitwise operations of machine words determine their low bits
from the low bits of their operands. `Agree k a b` says that two words have the same low
`k` bits; its rules carry that through the operations.
-/

namespace Rosa

/-- The low `bits` bits are the same. -/
def Agree {w : Nat} (bits : Nat) (a b : BitVec w) : Prop :=
  ∀ i < bits, a.getLsbD i = b.getLsbD i

namespace Agree

variable {w bits : Nat} {a b c d : BitVec w}

theorem refl (bits : Nat) (a : BitVec w) : Agree bits a a := fun _ _ => rfl

theorem mono {k : Nat} (h : Agree bits a b) (hk : k ≤ bits) : Agree k a b :=
  fun i hi => h i (Nat.lt_of_lt_of_le hi hk)

theorem iff_setWidth : Agree bits a b ↔ a.setWidth bits = b.setWidth bits := by
  constructor
  · intro h
    apply BitVec.eq_of_getLsbD_eq
    intro i hi
    simp [hi, h i hi]
  · intro h i hi
    have := congrArg (·.getLsbD i) h
    simpa [BitVec.getLsbD_setWidth, hi] using this

theorem add (hb : bits ≤ w) (h : Agree bits a b) (h' : Agree bits c d) :
    Agree bits (a + c) (b + d) := by
  rw [iff_setWidth] at *
  rw [BitVec.setWidth_add _ _ hb, BitVec.setWidth_add _ _ hb, h, h']

theorem neg (hb : bits ≤ w) (h : Agree bits a b) : Agree bits (-a) (-b) := by
  rw [iff_setWidth] at *
  rw [BitVec.setWidth_neg_of_le hb, BitVec.setWidth_neg_of_le hb, h]

theorem sub (hb : bits ≤ w) (h : Agree bits a b) (h' : Agree bits c d) :
    Agree bits (a - c) (b - d) := by
  rw [BitVec.sub_eq_add_neg, BitVec.sub_eq_add_neg]
  exact h.add hb (h'.neg hb)

theorem and (h : Agree bits a b) (h' : Agree bits c d) : Agree bits (a &&& c) (b &&& d) :=
  fun i hi => by simp [h i hi, h' i hi]

theorem or (h : Agree bits a b) (h' : Agree bits c d) : Agree bits (a ||| c) (b ||| d) :=
  fun i hi => by simp [h i hi, h' i hi]

theorem xor (h : Agree bits a b) (h' : Agree bits c d) : Agree bits (a ^^^ c) (b ^^^ d) :=
  fun i hi => by simp [h i hi, h' i hi]

end Agree

end Rosa
