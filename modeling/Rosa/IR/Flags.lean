import Rosa.IR.Syntax

/-!
# RFLAGS

The flag updates of `dbt/FlagHelpers.cpp`, `dbt/FlagSemantics.h` and the inline
sequences of `arm64/Backend.cpp`, one definition for all widths. Operands are 64-bit
host values whose bits above the operation's width are arbitrary, so every update
truncates first.

An update replaces a set of flag bits and sets the reserved bit. `composeFlags` builds
the new value from the bits that are kept and the six arithmetic flags, and
`evalCondition_composeFlags` reads a condition back off the flags it was built from.
-/

namespace Rosa

/-! ## Widths of host values -/

namespace Width

/-- The bits of the width, all ones. -/
def mask (w : Width) : BitVec 64 := (BitVec.allOnes w.bits).setWidth 64

/-- The low bits of a value, zero extended. -/
def truncate (w : Width) (v : BitVec 64) : BitVec 64 := (v.setWidth w.bits).setWidth 64

@[simp] theorem truncate_i64 (v : BitVec 64) : truncate .i64 v = v := by
  simp [truncate, bits]

theorem getLsbD_truncate (w : Width) (v : BitVec 64) (i : Nat) :
    (w.truncate v).getLsbD i = (decide (i < w.bits) && v.getLsbD i) := by
  have := w.bits_le
  by_cases hi : i < w.bits
  · simp [truncate, BitVec.getLsbD_setWidth, hi]
    omega
  · simp [truncate, BitVec.getLsbD_setWidth, hi]

theorem getLsbD_mask (w : Width) (i : Nat) : w.mask.getLsbD i = decide (i < w.bits) := by
  have := w.bits_le
  by_cases hi : i < w.bits
  · simp [mask, BitVec.getLsbD_setWidth, hi]
    omega
  · simp [mask, BitVec.getLsbD_setWidth, hi]

@[simp] theorem truncate_truncate (w : Width) (v : BitVec 64) :
    w.truncate (w.truncate v) = w.truncate v := by
  apply BitVec.eq_of_getLsbD_eq
  intro i _
  rw [getLsbD_truncate, getLsbD_truncate]
  cases decide (i < w.bits) <;> simp

theorem and_mask (w : Width) (v : BitVec 64) : v &&& w.mask = w.truncate v := by
  apply BitVec.eq_of_getLsbD_eq
  intro i _
  rw [BitVec.getLsbD_and, getLsbD_mask, getLsbD_truncate, Bool.and_comm]

@[simp] theorem truncate_zero (w : Width) : w.truncate 0#64 = 0#64 := by
  simp [truncate]

theorem truncate_setWidth (w : Width) (v : BitVec w.bits) :
    w.truncate (v.setWidth 64) = v.setWidth 64 := by
  rw [truncate, BitVec.setWidth_setWidth_of_le _ w.bits_le, BitVec.setWidth_eq]

/-- The sign bit of a value of the width. -/
def signBit (w : Width) (v : BitVec 64) : Bool := v.getLsbD (w.bits - 1)

theorem signBit_truncate (w : Width) (v : BitVec 64) : w.signBit (w.truncate v) = w.signBit v := by
  have := w.bits_pos
  simp only [signBit, getLsbD_truncate]
  simp [show w.bits - 1 < w.bits by omega]

end Width

/-! ## The flag bits -/

def flagCarry : BitVec 64 := 1
def flagReservedOne : BitVec 64 := 2
def flagParity : BitVec 64 := 4
def flagAuxiliaryCarry : BitVec 64 := 16
def flagZero : BitVec 64 := 64
def flagSign : BitVec 64 := 128
def flagDirection : BitVec 64 := 1024
def flagOverflow : BitVec 64 := 2048

/-- The six arithmetic flags. -/
def arithmeticFlagMask : BitVec 64 :=
  flagCarry ||| flagParity ||| flagAuxiliaryCarry ||| flagZero ||| flagSign ||| flagOverflow

/-- `flag` when the condition holds. -/
def flagWhen (condition : Bool) (flag : BitVec 64) : BitVec 64 := if condition then flag else 0

/-- The values of the six arithmetic flags. -/
structure FlagValues where
  carry : Bool := false
  parity : Bool := false
  auxiliaryCarry : Bool := false
  zero : Bool := false
  sign : Bool := false
  overflow : Bool := false
  deriving DecidableEq, Repr

/-- RFLAGS from the bits that stay, the reserved bit and the new flags. -/
def composeFlags (kept : BitVec 64) (f : FlagValues) : BitVec 64 :=
  kept ||| flagReservedOne ||| flagWhen f.carry flagCarry ||| flagWhen f.parity flagParity |||
    flagWhen f.auxiliaryCarry flagAuxiliaryCarry ||| flagWhen f.zero flagZero |||
    flagWhen f.sign flagSign ||| flagWhen f.overflow flagOverflow

/-- The flags an RFLAGS value holds. -/
def flagsOf (rflags : BitVec 64) : FlagValues where
  carry := rflags.getLsbD 0
  parity := rflags.getLsbD 2
  auxiliaryCarry := rflags.getLsbD 4
  zero := rflags.getLsbD 6
  sign := rflags.getLsbD 7
  overflow := rflags.getLsbD 11

/-- A condition on the flags. -/
def conditionValue (c : Condition) (f : FlagValues) : Bool :=
  match c with
  | .overflow => f.overflow
  | .notOverflow => !f.overflow
  | .parityEven => f.parity
  | .parityOdd => !f.parity
  | .equal => f.zero
  | .notEqual => !f.zero
  | .below => f.carry
  | .aboveOrEqual => !f.carry
  | .above => !(f.carry || f.zero)
  | .belowOrEqual => f.carry || f.zero
  | .sign => f.sign
  | .notSign => !f.sign
  | .less => f.sign ^^ f.overflow
  | .greaterOrEqual => !(f.sign ^^ f.overflow)
  | .lessOrEqual => f.zero || (f.sign ^^ f.overflow)
  | .greater => !(f.zero || (f.sign ^^ f.overflow))

/-- The condition as the flag-test code of the backend evaluates it. -/
def evalCondition (c : Condition) (rflags : BitVec 64) : Bool :=
  conditionValue c (flagsOf rflags)

/-! ## Flag values of a result -/

/-- The low byte has an even number of ones. -/
def parityEven (v : BitVec 64) : Bool :=
  ((List.range 8).countP fun i => v.getLsbD i) % 2 == 0

/-- Parity by folding the byte onto its lowest bit : `v ^= v >> 4`, then by 2, then by 1. -/
def parityFold (v : BitVec 64) : Bool :=
  let a := v ^^^ (v >>> 4)
  let b := a ^^^ (a >>> 2)
  let c := b ^^^ (b >>> 1)
  !c.getLsbD 0

theorem parityFold_eq (v : BitVec 64) : parityFold v = parityEven v := by
  simp only [parityFold, parityEven, BitVec.getLsbD_xor, BitVec.getLsbD_ushiftRight,
    show List.range 8 = [0, 1, 2, 3, 4, 5, 6, 7] from rfl, List.countP_cons, List.countP_nil]
  generalize v.getLsbD 0 = b0, v.getLsbD 1 = b1, v.getLsbD 2 = b2, v.getLsbD 3 = b3,
    v.getLsbD 4 = b4, v.getLsbD 5 = b5, v.getLsbD 6 = b6, v.getLsbD 7 = b7
  revert b0 b1 b2 b3 b4 b5 b6 b7
  decide

/-- Parity, zero and sign of a result already truncated to the width. -/
def resultFlags (w : Width) (result : BitVec 64) : FlagValues where
  parity := parityEven result
  zero := result == 0
  sign := w.signBit result

/-- Flags of an addition, with the result given. -/
def addFlagValues (w : Width) (lhs rhs result : BitVec 64) : FlagValues :=
  let l := w.truncate lhs
  let r := w.truncate rhs
  let s := w.truncate result
  { resultFlags w s with
    carry := s.ult l
    auxiliaryCarry := (l ^^^ r ^^^ s).getLsbD 4
    overflow := w.signBit ((l ^^^ s) &&& (r ^^^ s)) }

/-- Flags of a subtraction, with the result given. -/
def subFlagValues (w : Width) (lhs rhs result : BitVec 64) : FlagValues :=
  let l := w.truncate lhs
  let r := w.truncate rhs
  let s := w.truncate result
  { resultFlags w s with
    carry := l.ult r
    auxiliaryCarry := (l ^^^ r ^^^ s).getLsbD 4
    overflow := w.signBit ((l ^^^ r) &&& (l ^^^ s)) }

/-- Flags of an increment or decrement; the carry is not theirs. `boundary` is the
original value that overflows. -/
def incDecFlagValues (w : Width) (boundary original result : BitVec 64) : FlagValues :=
  let o := w.truncate original
  let s := w.truncate result
  { resultFlags w s with
    auxiliaryCarry := (o ^^^ 1 ^^^ s).getLsbD 4
    overflow := o == boundary }

/-- The value with only the sign bit of the width set. -/
def signMask (w : Width) : BitVec 64 := 1 <<< (w.bits - 1)

/-- The two ways to find the overflow of a sum from its signs. -/
theorem signBit_sum (w : Width) (l r s : BitVec 64) :
    w.signBit (~~~(l ^^^ r) &&& (l ^^^ s)) = w.signBit ((l ^^^ s) &&& (r ^^^ s)) := by
  have := w.bits_le
  have := w.bits_pos
  simp only [Width.signBit, BitVec.getLsbD_and, BitVec.getLsbD_xor, BitVec.getLsbD_not,
    show w.bits - 1 < 64 by omega, decide_true, Bool.true_and]
  cases l.getLsbD (w.bits - 1) <;> cases r.getLsbD (w.bits - 1) <;>
    cases s.getLsbD (w.bits - 1) <;> rfl

/-! ## The updates -/

/-- `UpdateAddFlags`. -/
def updateAddFlags (w : Width) (rflags lhs rhs result : BitVec 64) : BitVec 64 :=
  composeFlags (rflags &&& ~~~arithmeticFlagMask) (addFlagValues w lhs rhs result)

/-- `UpdateSubFlags`. -/
def updateSubFlags (w : Width) (rflags lhs rhs result : BitVec 64) : BitVec 64 :=
  composeFlags (rflags &&& ~~~arithmeticFlagMask) (subFlagValues w lhs rhs result)

/-- `UpdateLogicFlags`. -/
def updateLogicFlags (w : Width) (rflags result : BitVec 64) : BitVec 64 :=
  composeFlags (rflags &&& ~~~arithmeticFlagMask) (resultFlags w (w.truncate result))

/-- `updateIncFlags`, which keeps the carry. -/
def updateIncFlags (w : Width) (rflags original result : BitVec 64) : BitVec 64 :=
  composeFlags (rflags &&& ~~~(arithmeticFlagMask &&& ~~~flagCarry))
    (incDecFlagValues w (signMask w - 1) original result)

/-- `updateDecFlags`, which keeps the carry. -/
def updateDecFlags (w : Width) (rflags original result : BitVec 64) : BitVec 64 :=
  composeFlags (rflags &&& ~~~(arithmeticFlagMask &&& ~~~flagCarry))
    (incDecFlagValues w (signMask w) original result)

/-- `updateAdcFlags*`, which computes its own result from the carry in `carryValue`. The
64-bit helper finds carry and overflow from wrapped sums, the others from a wider sum. -/
def updateAdcFlags (w : Width) (rflags lhs rhs carryValue : BitVec 64) : BitVec 64 :=
  let l := w.truncate lhs
  let r := w.truncate rhs
  let carry := carryValue &&& 1
  let s := w.truncate (l + r + carry)
  let signed := (lhs.setWidth w.bits).toInt + (rhs.setWidth w.bits).toInt + carry.toInt
  composeFlags (rflags &&& ~~~arithmeticFlagMask)
    { resultFlags w s with
      carry :=
        if w = .i64 then (l + r).ult l || s.ult (l + r)
        else 2 ^ w.bits ≤ l.toNat + r.toNat + carry.toNat
      auxiliaryCarry := 15 < (l &&& 15).toNat + (r &&& 15).toNat + carry.toNat
      overflow :=
        if w = .i64 then w.signBit (~~~(l ^^^ r) &&& (l ^^^ s))
        else decide (2 ^ (w.bits - 1) ≤ signed ∨ signed < -2 ^ (w.bits - 1)) }

/-- `updateSbbFlags*`, which computes its own result from the borrow in `borrowValue`. -/
def updateSbbFlags (w : Width) (rflags lhs rhs borrowValue : BitVec 64) : BitVec 64 :=
  let l := w.truncate lhs
  let r := w.truncate rhs
  let borrow := borrowValue &&& 1
  let s := w.truncate (l - (r + borrow))
  composeFlags (rflags &&& ~~~arithmeticFlagMask)
    { resultFlags w s with
      carry :=
        if w = .i64 then (r + borrow).ult r || l.ult (r + borrow)
        else l.toNat < r.toNat + borrow.toNat
      auxiliaryCarry := (l ^^^ r ^^^ s).getLsbD 4
      overflow := w.signBit ((l ^^^ r) &&& (l ^^^ s)) }

/-- The shift count the helpers use : six bits for 64-bit shifts, five otherwise. -/
def shiftCount (w : Width) (unmasked : BitVec 64) : Nat :=
  (unmasked &&& (if w = .i64 then 0x3F else 0x1F)).toNat

/-- The flag bits a shift by `count` replaces : the overflow flag only by one bit, the
carry only if `replacesCarry`. -/
def shiftReplaced (replacesCarry : Bool) (count : Nat) : BitVec 64 :=
  flagParity ||| flagZero ||| flagSign ||| flagWhen replacesCarry flagCarry |||
    flagWhen (count == 1) flagOverflow

/-- `updateShiftLeftFlags*`. The byte form leaves the carry alone from eight bits on. -/
def updateShiftLeftFlags (w : Width) (rflags lhs result unmasked : BitVec 64) : BitVec 64 :=
  let count := shiftCount w unmasked
  if count = 0 then rflags else
    let s := w.truncate result
    let hasCarry := w != .i8 || count < 8
    let carry := hasCarry && (w.truncate lhs).getLsbD (w.bits - count)
    composeFlags (rflags &&& ~~~shiftReplaced hasCarry count)
      { resultFlags w s with
        carry := carry
        overflow := count == 1 && (w.signBit s ^^ carry) }

/-- `updateShiftRightFlags*`. -/
def updateShiftRightFlags (w : Width) (rflags lhs result unmasked : BitVec 64) : BitVec 64 :=
  let count := shiftCount w unmasked
  if count = 0 then rflags else
    composeFlags (rflags &&& ~~~shiftReplaced true count)
      { resultFlags w (w.truncate result) with
        carry := (w.truncate lhs).getLsbD (count - 1)
        overflow := count == 1 && w.signBit lhs }

/-- `updateShiftRightArithmeticFlags*`. -/
def updateShiftRightArithmeticFlags (w : Width) (rflags lhs result unmasked : BitVec 64) :
    BitVec 64 :=
  let count := shiftCount w unmasked
  if count = 0 then rflags else
    composeFlags (rflags &&& ~~~shiftReplaced true count)
      { resultFlags w (w.truncate result) with
        carry := (w.truncate lhs).getLsbD (count - 1) }

/-- The flag bits a rotate replaces. -/
def rotateReplaced (count : Nat) : BitVec 64 := flagCarry ||| flagWhen (count == 1) flagOverflow

/-- `updateRotateLeftFlags*`. The 16-bit form takes the count modulo 16. -/
def updateRotateLeftFlags (w : Width) (rflags result unmasked : BitVec 64) : BitVec 64 :=
  let count := if w = .i16 then shiftCount w unmasked % 16 else shiftCount w unmasked
  if count = 0 then rflags else
    let carry := result.getLsbD 0
    composeFlags (rflags &&& ~~~rotateReplaced count)
      { carry := carry
        overflow := count == 1 && (w.signBit result ^^ carry) }

/-- `updateRotateRightFlags*`. -/
def updateRotateRightFlags (w : Width) (rflags result unmasked : BitVec 64) : BitVec 64 :=
  let count := shiftCount w unmasked
  if count = 0 then rflags else
    composeFlags (rflags &&& ~~~rotateReplaced count)
      { carry := w.signBit result
        overflow := count == 1 && (w.signBit result ^^ result.getLsbD (w.bits - 2)) }

/-- `updateMultiplyFlags64`, used at every width. -/
def updateMultiplyFlags (rflags high : BitVec 64) : BitVec 64 :=
  composeFlags (rflags &&& ~~~(flagCarry ||| flagOverflow))
    { carry := high != 0, overflow := high != 0 }

/-- `updateSignedMultiplyFlags*`. -/
def updateSignedMultiplyFlags (w : Width) (rflags lhs rhs : BitVec 64) : BitVec 64 :=
  let product := (lhs.setWidth w.bits).toInt * (rhs.setWidth w.bits).toInt
  let overflow := decide (product < -2 ^ (w.bits - 1) ∨ 2 ^ (w.bits - 1) ≤ product)
  composeFlags (rflags &&& ~~~(flagCarry ||| flagOverflow))
    { carry := overflow, overflow := overflow }

/-- `updateShiftRightDoubleFlags64`, used at every width. -/
def updateShiftRightDoubleFlags (rflags original result unmasked : BitVec 64) : BitVec 64 :=
  let count := shiftCount .i64 unmasked
  if count = 0 then rflags else
    composeFlags (rflags &&& ~~~shiftReplaced true count)
      { resultFlags .i64 result with
        carry := original.getLsbD (count - 1)
        overflow := count == 1 && Width.signBit .i64 (original ^^^ result) }

/-- `updateBitTestFlags*`. -/
def updateBitTestFlags (w : Width) (rflags value unmasked : BitVec 64) : BitVec 64 :=
  composeFlags (rflags &&& ~~~flagCarry) { carry := value.getLsbD (shiftCount w unmasked) }

/-! ## Reading flags back -/

theorem getLsbD_flagWhen (b : Bool) (f : BitVec 64) (i : Nat) :
    (flagWhen b f).getLsbD i = (b && f.getLsbD i) := by
  cases b <;> simp [flagWhen]

/-- The flags of a composed value : the ones given, or the ones kept. -/
theorem flagsOf_composeFlags (kept : BitVec 64) (f : FlagValues) :
    flagsOf (composeFlags kept f) =
      { carry := (flagsOf kept).carry || f.carry
        parity := (flagsOf kept).parity || f.parity
        auxiliaryCarry := (flagsOf kept).auxiliaryCarry || f.auxiliaryCarry
        zero := (flagsOf kept).zero || f.zero
        sign := (flagsOf kept).sign || f.sign
        overflow := (flagsOf kept).overflow || f.overflow } := by
  simp only [flagsOf, composeFlags, BitVec.getLsbD_or, getLsbD_flagWhen]
  simp [flagCarry, flagReservedOne, flagParity, flagAuxiliaryCarry, flagZero, flagSign,
    flagOverflow]

theorem flagsOf_and (a b : BitVec 64) :
    flagsOf (a &&& b) =
      { carry := (flagsOf a).carry && (flagsOf b).carry
        parity := (flagsOf a).parity && (flagsOf b).parity
        auxiliaryCarry := (flagsOf a).auxiliaryCarry && (flagsOf b).auxiliaryCarry
        zero := (flagsOf a).zero && (flagsOf b).zero
        sign := (flagsOf a).sign && (flagsOf b).sign
        overflow := (flagsOf a).overflow && (flagsOf b).overflow } := by
  simp [flagsOf]

@[simp] theorem flagsOf_not_arithmeticFlagMask : flagsOf (~~~arithmeticFlagMask) = {} := by
  decide

/-- A full replacement leaves exactly the flags it was given. -/
@[simp] theorem flagsOf_replace (rflags : BitVec 64) (f : FlagValues) :
    flagsOf (composeFlags (rflags &&& ~~~arithmeticFlagMask) f) = f := by
  rw [flagsOf_composeFlags, flagsOf_and, flagsOf_not_arithmeticFlagMask]
  simp

/-- An update that keeps the carry leaves the old carry and the other flags it was given. -/
theorem flagsOf_keepCarry (rflags : BitVec 64) (f : FlagValues) (hf : f.carry = false) :
    flagsOf (composeFlags (rflags &&& ~~~(arithmeticFlagMask &&& ~~~flagCarry)) f) =
      { f with carry := (flagsOf rflags).carry } := by
  have hm : flagsOf (~~~(arithmeticFlagMask &&& ~~~flagCarry)) = { carry := true } := by decide
  rw [flagsOf_composeFlags, flagsOf_and, hm]
  simp [hf]

/-- Composed flags are arithmetic flags. -/
theorem composeFlags_and_not (rflags : BitVec 64) (f : FlagValues) :
    (composeFlags (rflags &&& ~~~arithmeticFlagMask) f &&& ~~~arithmeticFlagMask) |||
        flagReservedOne =
      (rflags &&& ~~~arithmeticFlagMask) ||| flagReservedOne := by
  have hsplit : composeFlags (rflags &&& ~~~arithmeticFlagMask) f =
      (rflags &&& ~~~arithmeticFlagMask) ||| composeFlags 0 f := by
    simp [composeFlags, BitVec.or_assoc]
  have harith : composeFlags 0 f &&& ~~~arithmeticFlagMask = flagReservedOne := by
    rcases f with ⟨_ | _, _ | _, _ | _, _ | _, _ | _, _ | _⟩ <;> decide
  rw [hsplit, BitVec.and_or_distrib_right, BitVec.and_assoc, BitVec.and_self, harith,
    BitVec.or_assoc, BitVec.or_self]

end Rosa
