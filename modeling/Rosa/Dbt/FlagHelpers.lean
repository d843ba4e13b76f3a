import Rosa.X86.ShiftLowering

/-!
# The flag helpers

`dbt/FlagHelpers.cpp` : the helpers that set the arithmetic flags after an addition, a
subtraction, a logical operation, a shift, a rotate or a bit test. `FlagCall` is a call of one of
them at one of the widths it exists for, `FlagCall.effects` what the architecture says of the
flags. `flagHelpers_iff` says that every call with operand values of its operation does what the
architecture says, but for one : `updateRotateLeftFlags16` takes the count modulo the width, and so
leaves the carry alone when the rotate is by the whole width.
-/

namespace Rosa

namespace X86

/-! ## The architecture -/

section

variable {k : Nat}

/-- Outside the signed numbers of `k` bits. -/
def signedOverflow (k : Nat) (exact : Int) : Bool :=
  decide (exact < -2 ^ (k - 1) ∨ 2 ^ (k - 1) ≤ exact)

/-- `ADC`, and `ADD` without a carry. -/
def adc (x y : BitVec k) (c : Bool) : BitVec k × FlagEffects :=
  let result := BitVec.ofNat k (x.toNat + y.toNat + c.toNat)
  (result, .ofResult result (.set (decide (2 ^ k ≤ x.toNat + y.toNat + c.toNat)))
    (.set (signedOverflow k (x.toInt + y.toInt + c.toNat)))
    (.set (decide (16 ≤ x.toNat % 16 + y.toNat % 16 + c.toNat))))

/-- `SBB`, and `SUB` and `CMP` without a borrow. -/
def sbb (x y : BitVec k) (c : Bool) : BitVec k × FlagEffects :=
  let result := x - (y + BitVec.ofNat k c.toNat)
  (result, .ofResult result (.set (decide (x.toNat < y.toNat + c.toNat)))
    (.set (signedOverflow k (x.toInt - y.toInt - c.toNat)))
    (.set (decide (x.toNat % 16 < y.toNat % 16 + c.toNat))))

/-- `INC`, which keeps the carry. -/
def inc (x : BitVec k) : BitVec k × FlagEffects :=
  ((adc x 1 false).1, { (adc x 1 false).2 with carry := .kept })

/-- `DEC`, which keeps the carry. -/
def dec (x : BitVec k) : BitVec k × FlagEffects :=
  ((sbb x 1 false).1, { (sbb x 1 false).2 with carry := .kept })

/-- The result of `AND`, `OR`, `XOR` or `TEST`. -/
def logicEffects (result : BitVec k) : FlagEffects :=
  .ofResult result (.set false) (.set false) .undefined

/-- `BT` and its like : only the zero flag is kept. -/
def bitTestEffects (x : BitVec k) (index : Nat) : FlagEffects :=
  { FlagEffects.undefined with carry := .set (x.getLsbD index), zero := .kept }

/-! ## Sums and differences -/

/-- A sum, as a number. -/
def IsSum (x y s : BitVec k) (c : Bool) : Prop :=
  s.toNat = (x.toNat + y.toNat + c.toNat) % 2 ^ k

theorem isSum_adc (x y : BitVec k) (c : Bool) : IsSum x y (adc x y c).1 c := BitVec.toNat_ofNat ..

/-- The minuend is the sum of the difference, the subtrahend and the borrow. -/
theorem isSum_sbb (x y : BitVec k) (c : Bool) : IsSum (sbb x y c).1 y x c := by
  have h : (sbb x y c).1 + (y + BitVec.ofNat k c.toNat) = x := BitVec.sub_add_cancel _ _
  have := congrArg BitVec.toNat h
  rw [BitVec.toNat_add, BitVec.toNat_add, BitVec.toNat_ofNat, Nat.add_mod_mod,
    ← Nat.add_assoc, Nat.add_mod_mod] at this
  exact this.symm

variable {x y s : BitVec k} {c : Bool}

theorem IsSum.eq (h : IsSum x y s c) : s = x + y + BitVec.setWidth k (BitVec.ofBool c) := by
  apply BitVec.eq_of_toNat_eq
  rw [h, BitVec.toNat_add, BitVec.toNat_add, BitVec.toNat_setWidth, BitVec.toNat_ofBool,
    Nat.mod_add_mod, Nat.add_mod_mod]

/-- The carry into the fifth bit. -/
theorem IsSum.auxiliary (h : IsSum x y s c) (hk : 4 < k) :
    (x.getLsbD 4 ^^ y.getLsbD 4 ^^ s.getLsbD 4) =
      decide (16 ≤ x.toNat % 16 + y.toNat % 16 + c.toNat) := by
  rw [h.eq, BitVec.getLsbD_add_add_bool hk, BitVec.carry]
  cases x.getLsbD 4 <;> cases y.getLsbD 4 <;> simp [ge_iff_le]

/-- The numbers behind a sum : either no carry leaves it or one does. -/
theorem IsSum.cases (h : IsSum x y s c) :
    s.toNat = x.toNat + y.toNat + c.toNat ∧ x.toNat + y.toNat + c.toNat < 2 ^ k ∨
      s.toNat + 2 ^ k = x.toNat + y.toNat + c.toNat := by
  have hx := x.isLt
  have hy := y.isLt
  have hc : c.toNat ≤ 1 := Bool.toNat_le c
  by_cases hlt : x.toNat + y.toNat + c.toNat < 2 ^ k
  · exact .inl ⟨h.trans (Nat.mod_eq_of_lt hlt), hlt⟩
  · refine .inr ?_
    rw [h, Nat.mod_eq_sub_mod (not_lt.mp hlt), Nat.mod_eq_of_lt (by omega)]
    omega

theorem two_pow_eq (hk : 0 < k) : 2 ^ k = 2 * 2 ^ (k - 1) := by
  rw [← Nat.pow_succ', Nat.succ_eq_add_one, Nat.sub_add_cancel hk]

theorem toInt_eq_cond (hk : 0 < k) (v : BitVec k) :
    v.toInt = if 2 ^ (k - 1) ≤ v.toNat then (v.toNat : Int) - 2 * (2 ^ (k - 1) : Nat)
      else v.toNat := by
  have hpow : (2 : Int) ^ k = 2 * (2 ^ (k - 1) : Nat) := by exact_mod_cast two_pow_eq hk
  rw [BitVec.toInt_eq_msb_cond, BitVec.msb_eq_decide]
  simp [hpow]

theorem signedOverflow_iff {exact : Int} : signedOverflow k exact = true ↔
    exact < -(2 ^ (k - 1) : Nat) ∨ ((2 ^ (k - 1) : Nat) : Int) ≤ exact := by
  simp [signedOverflow]

/-- The overflow of a sum from its signs. -/
theorem IsSum.overflow (h : IsSum x y s c) (hk : 0 < k) :
    (!(x.msb ^^ y.msb) && (x.msb ^^ s.msb)) =
      signedOverflow k (x.toInt + y.toInt + c.toNat) := by
  have hx := x.isLt
  have hy := y.isLt
  have hs := s.isLt
  have hc : c.toNat ≤ 1 := Bool.toNat_le c
  have hcases := h.cases
  rw [two_pow_eq hk] at hx hy hs hcases
  rw [Bool.eq_iff_iff, signedOverflow_iff, toInt_eq_cond hk, toInt_eq_cond hk,
    BitVec.msb_eq_decide, BitVec.msb_eq_decide, BitVec.msb_eq_decide]
  generalize 2 ^ (k - 1) = H at *
  by_cases h1 : H ≤ x.toNat <;> by_cases h2 : H ≤ y.toNat <;> by_cases h3 : H ≤ s.toNat <;>
    simp [h1, h2, h3] <;> omega

/-- The overflow of a difference from its signs. -/
theorem IsSum.overflow_sub (h : IsSum s y x c) (hk : 0 < k) :
    ((x.msb ^^ y.msb) && (x.msb ^^ s.msb)) =
      signedOverflow k (x.toInt - y.toInt - c.toNat) := by
  have hx := x.isLt
  have hy := y.isLt
  have hs := s.isLt
  have hc : c.toNat ≤ 1 := Bool.toNat_le c
  have hcases := h.cases
  rw [two_pow_eq hk] at hx hy hs hcases
  rw [Bool.eq_iff_iff, signedOverflow_iff, toInt_eq_cond hk, toInt_eq_cond hk,
    BitVec.msb_eq_decide, BitVec.msb_eq_decide, BitVec.msb_eq_decide]
  generalize 2 ^ (k - 1) = H at *
  by_cases h1 : H ≤ x.toNat <;> by_cases h2 : H ≤ y.toNat <;> by_cases h3 : H ≤ s.toNat <;>
    simp [h1, h2, h3] <;> omega

/-- The borrow into the fifth bit. -/
theorem IsSum.auxiliary_sub (h : IsSum s y x c) (hk : 4 < k) :
    (x.getLsbD 4 ^^ y.getLsbD 4 ^^ s.getLsbD 4) =
      decide (x.toNat % 16 < y.toNat % 16 + c.toNat) := by
  have hrot : (x.getLsbD 4 ^^ y.getLsbD 4 ^^ s.getLsbD 4) =
      (s.getLsbD 4 ^^ y.getLsbD 4 ^^ x.getLsbD 4) := by
    cases x.getLsbD 4 <;> cases y.getLsbD 4 <;> cases s.getLsbD 4 <;> rfl
  have hc : c.toNat ≤ 1 := Bool.toNat_le c
  have hdvd : (2 : Nat) ^ k = 16 * 2 ^ (k - 4) := by
    rw [show (16 : Nat) = 2 ^ 4 from rfl, ← Nat.pow_add, Nat.add_sub_cancel' hk.le]
  rw [hrot, h.auxiliary hk, decide_eq_decide]
  rcases h.cases with ⟨h1, -⟩ | h1
  · omega
  · rw [hdvd] at h1
    omega

end

/-! ## The helpers of sums and differences -/

/-- `updateAddFlags*`. The 64-bit helper finds the carry from the wrapped sum, the others from a
wider one. -/
def addFlags (w : Width) (rflags lhs rhs result : BitVec 64) : BitVec 64 :=
  let l := w.truncate lhs
  let r := w.truncate rhs
  let s := w.truncate result
  composeFlags (rflags &&& ~~~arithmeticFlagMask)
    { resultFlags w s with
      carry := if w = .i64 then s.ult l else decide (2 ^ w.bits ≤ l.toNat + r.toNat)
      auxiliaryCarry := (l ^^^ r ^^^ s).getLsbD 4
      overflow := w.signBit (~~~(l ^^^ r) &&& (l ^^^ s)) }

section

variable {w : Width} {old lhs rhs result v : BitVec 64} {x y s : BitVec w.bits}

theorem auxiliary_extended (x y s : BitVec w.bits) :
    (x.setWidth 64 ^^^ y.setWidth 64 ^^^ s.setWidth 64).getLsbD 4 =
      (x.getLsbD 4 ^^ y.getLsbD 4 ^^ s.getLsbD 4) := by
  rw [BitVec.getLsbD_xor, BitVec.getLsbD_xor, getLsbD_extended x (by decide),
    getLsbD_extended y (by decide), getLsbD_extended s (by decide)]

theorem signBit_and (a b : BitVec 64) : w.signBit (a &&& b) = (w.signBit a && w.signBit b) :=
  BitVec.getLsbD_and

theorem signBit_xor (a b : BitVec 64) : w.signBit (a ^^^ b) = (w.signBit a ^^ w.signBit b) :=
  BitVec.getLsbD_xor

theorem signBit_not (a : BitVec 64) : w.signBit (~~~a) = !w.signBit a := by
  have hle := w.bits_le
  have hpos := w.bits_pos
  rw [Width.signBit, BitVec.getLsbD_not, decide_eq_true (by omega), Bool.true_and, Width.signBit]

theorem four_lt_bits (w : Width) : 4 < w.bits := by cases w <;> decide

/-- Numbers that a sum wraps to are smaller than its operands. -/
theorem IsSum.lt_iff {c : Bool} (h : IsSum x y s c) (hc : c = false) :
    s.toNat < x.toNat ↔ 2 ^ w.bits ≤ x.toNat + y.toNat := by
  have hy := y.isLt
  subst hc
  rcases h.cases with ⟨h1, h2⟩ | h1 <;> simp only [Bool.toNat_false] at h1 <;> omega

theorem toNat_extended (x : BitVec w.bits) : (x.setWidth 64).toNat = x.toNat :=
  BitVec.toNat_setWidth_of_le w.bits_le

/-- The overflow of a sum from the sign bits that the helpers combine. -/
theorem IsSum.signBit {c : Bool} (h : IsSum x y s c) :
    w.signBit (~~~(x.setWidth 64 ^^^ y.setWidth 64) &&& (x.setWidth 64 ^^^ s.setWidth 64)) =
      signedOverflow w.bits (x.toInt + y.toInt + c.toNat) := by
  rw [signBit_and, signBit_not, signBit_xor, signBit_xor, signBit_extended, signBit_extended,
    signBit_extended, h.overflow w.bits_pos]

/-- The overflow of a difference from the sign bits that the helpers combine. -/
theorem IsSum.signBit_sub {c : Bool} (h : IsSum s y x c) :
    w.signBit ((x.setWidth 64 ^^^ y.setWidth 64) &&& (x.setWidth 64 ^^^ s.setWidth 64)) =
      signedOverflow w.bits (x.toInt - y.toInt - c.toNat) := by
  rw [signBit_and, signBit_xor, signBit_xor, signBit_extended, signBit_extended,
    signBit_extended, h.overflow_sub w.bits_pos]

/-- The flags of `ADD`. -/
theorem meets_add (hl : lhs.setWidth w.bits = x) (hr : rhs.setWidth w.bits = y)
    (hs : result.setWidth w.bits = (adc x y false).1) :
    (adc x y false).2.Meets old (addFlags w old lhs rhs result) := by
  have hsum := isSum_adc x y false
  have hflags := resultFlags_of_eq hs
  rw [truncate_eq hs] at hflags
  simp only [addFlags, truncate_eq hl, truncate_eq hr, truncate_eq hs, hflags]
  refine meets_replace ?_ rfl (.inr ?_) rfl rfl ?_
  · refine congrArg FlagEffect.set ?_
    rw [toNat_extended, toNat_extended]
    split
    · rw [BitVec.ult, toNat_extended, toNat_extended, decide_eq_decide, hsum.lt_iff rfl,
        Bool.toNat_false, Nat.add_zero]
    · rfl
  · refine congrArg FlagEffect.set ?_
    rw [auxiliary_extended, hsum.auxiliary (four_lt_bits w)]
  · refine congrArg FlagEffect.set ?_
    rw [hsum.signBit]

/-- The flags of `SUB`. -/
theorem meets_sub (hl : lhs.setWidth w.bits = x) (hr : rhs.setWidth w.bits = y)
    (hs : result.setWidth w.bits = (sbb x y false).1) :
    (sbb x y false).2.Meets old (updateSubFlags w old lhs rhs result) := by
  have hsum := isSum_sbb x y false
  have hflags := resultFlags_of_eq hs
  rw [truncate_eq hs] at hflags
  simp only [updateSubFlags, subFlagValues, truncate_eq hl, truncate_eq hr, truncate_eq hs, hflags]
  refine meets_replace ?_ rfl (.inr ?_) rfl rfl ?_
  · refine congrArg FlagEffect.set ?_
    rw [BitVec.ult, toNat_extended, toNat_extended]
    rfl
  · refine congrArg FlagEffect.set ?_
    rw [auxiliary_extended, hsum.auxiliary_sub (four_lt_bits w)]
  · refine congrArg FlagEffect.set ?_
    rw [hsum.signBit_sub]

/-- The low bit, as a number. -/
theorem toNat_and_one (v : BitVec 64) : (v &&& 1).toNat = (v.getLsbD 0).toNat := by
  rw [BitVec.toNat_and, show (1 : BitVec 64).toNat = 1 from rfl, Nat.and_one_is_mod,
    BitVec.getLsbD, Nat.testBit_zero]
  rcases Nat.mod_two_eq_zero_or_one v.toNat with h | h <;> simp [h]

theorem bits_mod (n : Nat) (w : Width) : n % 2 ^ 64 % 2 ^ w.bits = n % 2 ^ w.bits :=
  Nat.mod_mod_of_dvd n (Nat.pow_dvd_pow 2 w.bits_le)

/-- The flags of `ADC`. -/
theorem meets_adc (hl : lhs.setWidth w.bits = x) (hr : rhs.setWidth w.bits = y) :
    (adc x y (v.getLsbD 0)).2.Meets old (updateAdcFlags w old lhs rhs v) := by
  have hsum := isSum_adc x y (v.getLsbD 0)
  have hs : (x.setWidth 64 + y.setWidth 64 + (v &&& 1)).setWidth w.bits =
      (adc x y (v.getLsbD 0)).1 := by
    apply BitVec.eq_of_toNat_eq
    rw [hsum, BitVec.toNat_setWidth, BitVec.toNat_add, BitVec.toNat_add, toNat_extended,
      toNat_extended, toNat_and_one, Nat.mod_add_mod, bits_mod]
  have hcarry : (v &&& 1).toInt = (v.getLsbD 0).toNat := by
    have hnat := toNat_and_one v
    have hle : (v.getLsbD 0).toNat ≤ 1 := Bool.toNat_le _
    rw [BitVec.toInt_eq_toNat_of_lt (by omega), hnat]
  have hflags := resultFlags_of_eq hs
  rw [truncate_eq hs] at hflags
  simp only [updateAdcFlags, truncate_eq hl, truncate_eq hr, truncate_eq hs, hflags, hl, hr, hcarry]
  have hx := x.isLt
  have hy := y.isLt
  have hc : (v.getLsbD 0).toNat ≤ 1 := Bool.toNat_le _
  refine meets_replace ?_ rfl (.inr ?_) rfl rfl ?_
  · refine congrArg FlagEffect.set ?_
    rw [toNat_extended, toNat_extended, toNat_and_one]
    split
    · next hw =>
      subst hw
      -- the first sum wraps, or the second does
      have hfirst : (x.setWidth 64 + y.setWidth 64).toNat = (x.toNat + y.toNat) % 2 ^ 64 := by
        rw [BitVec.toNat_add, toNat_extended, toNat_extended]
      have hbits : (2 : Nat) ^ (Width.bits .i64) = 2 ^ 64 := rfl
      have hcases := hsum.cases
      rw [hbits] at hx hy hcases
      rw [Bool.eq_iff_iff, decide_eq_true_iff, Bool.or_eq_true, BitVec.ult, BitVec.ult,
        decide_eq_true_iff, decide_eq_true_iff, toNat_extended, toNat_extended, hfirst, hbits]
      omega
    · rfl
  · refine congrArg FlagEffect.set ?_
    rw [toNat_and_one, BitVec.toNat_and, BitVec.toNat_and, toNat_extended, toNat_extended,
      show (15 : BitVec 64).toNat = 2 ^ 4 - 1 from rfl, Nat.and_two_pow_sub_one_eq_mod,
      Nat.and_two_pow_sub_one_eq_mod, decide_eq_decide]
    rfl
  · refine congrArg FlagEffect.set ?_
    split
    · rw [hsum.signBit]
    · rw [signedOverflow, decide_eq_decide]
      exact or_comm

/-- The flags of `SBB`. -/
theorem meets_sbb (hl : lhs.setWidth w.bits = x) (hr : rhs.setWidth w.bits = y) :
    (sbb x y (v.getLsbD 0)).2.Meets old (updateSbbFlags w old lhs rhs v) := by
  have hsum := isSum_sbb x y (v.getLsbD 0)
  have hs : (x.setWidth 64 - (y.setWidth 64 + (v &&& 1))).setWidth w.bits =
      (sbb x y (v.getLsbD 0)).1 := by
    have hone : (v &&& 1).setWidth w.bits = BitVec.ofNat w.bits (v.getLsbD 0).toNat := by
      apply BitVec.eq_of_toNat_eq
      rw [BitVec.toNat_setWidth, toNat_and_one, BitVec.toNat_ofNat]
    have hself : ∀ z : BitVec w.bits, (z.setWidth 64).setWidth w.bits = z := fun z => by
      rw [BitVec.setWidth_setWidth_of_le _ w.bits_le, BitVec.setWidth_eq]
    rw [BitVec.sub_eq_add_neg, BitVec.setWidth_add _ _ w.bits_le, BitVec.setWidth_neg_of_le w.bits_le,
      BitVec.setWidth_add _ _ w.bits_le, hself, hself, hone, ← BitVec.sub_eq_add_neg]
    rfl
  have hflags := resultFlags_of_eq hs
  rw [truncate_eq hs] at hflags
  simp only [updateSbbFlags, truncate_eq hl, truncate_eq hr, truncate_eq hs, hflags]
  refine meets_replace ?_ rfl (.inr ?_) rfl rfl ?_
  · refine congrArg FlagEffect.set ?_
    rw [toNat_extended, toNat_extended, toNat_and_one]
    split
    · next hw =>
      subst hw
      have hx := x.isLt
      have hy := y.isLt
      have hc : (v.getLsbD 0).toNat ≤ 1 := Bool.toNat_le _
      have hsub : (y.setWidth 64 + (v &&& 1)).toNat =
          (y.toNat + (v.getLsbD 0).toNat) % 2 ^ 64 := by
        rw [BitVec.toNat_add, toNat_extended, toNat_and_one]
      have hbits : (2 : Nat) ^ (Width.bits .i64) = 2 ^ 64 := rfl
      rw [hbits] at hx hy
      rw [Bool.eq_iff_iff, decide_eq_true_iff, Bool.or_eq_true, BitVec.ult, BitVec.ult,
        decide_eq_true_iff, decide_eq_true_iff, toNat_extended, toNat_extended, hsub]
      omega
    · rfl
  · refine congrArg FlagEffect.set ?_
    rw [auxiliary_extended, hsum.auxiliary_sub (four_lt_bits w)]
  · refine congrArg FlagEffect.set ?_
    rw [hsum.signBit_sub]

end

section

variable {w : Width} {old original result value : BitVec 64} {x : BitVec w.bits}

/-- Flags that are all replaced but for the carry. -/
theorem meets_keepCarry {e : FlagEffects} {f : FlagValues} (hf : f.carry = false)
    (hc : e.carry = .kept) (hp : e.parity = .set f.parity)
    (ha : e.auxiliaryCarry = .set f.auxiliaryCarry) (hz : e.zero = .set f.zero)
    (hs : e.sign = .set f.sign) (ho : e.overflow = .set f.overflow) :
    e.Meets old (composeFlags (old &&& ~~~(arithmeticFlagMask &&& ~~~flagCarry)) f) := by
  refine ⟨?_, ?_, ?_, ?_, ?_, ?_, composeFlags_others (by decide)⟩ <;>
    rw [flagsOf_keepCarry _ _ hf]
  · rw [hc]; rfl
  · rw [hp]; rfl
  · rw [ha]; rfl
  · rw [hz]; rfl
  · rw [hs]; rfl
  · rw [ho]; rfl

theorem toInt_one (w : Width) : (1 : BitVec w.bits).toInt = 1 := by cases w <;> decide

theorem extended_one (w : Width) : (1 : BitVec w.bits).setWidth 64 = 1 := by cases w <;> decide

theorem toNat_signMask (w : Width) : (signMask w).toNat = 2 ^ (w.bits - 1) := by
  cases w <;> decide

theorem toNat_signMask_sub_one (w : Width) : (signMask w - 1).toNat = 2 ^ (w.bits - 1) - 1 := by
  cases w <;> decide

/-- Only the largest number overflows when it is incremented. -/
theorem inc_overflow (x : BitVec w.bits) : (x.setWidth 64 == signMask w - 1) =
    signedOverflow w.bits (x.toInt + (1 : BitVec w.bits).toInt + (false.toNat : Nat)) := by
  have hx := x.isLt
  have hpos : 0 < 2 ^ (w.bits - 1) := Nat.two_pow_pos _
  rw [two_pow_eq w.bits_pos] at hx
  rw [Bool.eq_iff_iff, beq_iff_eq, ← BitVec.toNat_inj, toNat_extended, toNat_signMask_sub_one,
    signedOverflow_iff, toInt_one, toInt_eq_cond w.bits_pos, Bool.toNat_false]
  generalize 2 ^ (w.bits - 1) = H at *
  split <;> omega

/-- Only the smallest number overflows when it is decremented. -/
theorem dec_overflow (x : BitVec w.bits) : (x.setWidth 64 == signMask w) =
    signedOverflow w.bits (x.toInt - (1 : BitVec w.bits).toInt - (false.toNat : Nat)) := by
  have hx := x.isLt
  have hpos : 0 < 2 ^ (w.bits - 1) := Nat.two_pow_pos _
  rw [two_pow_eq w.bits_pos] at hx
  rw [Bool.eq_iff_iff, beq_iff_eq, ← BitVec.toNat_inj, toNat_extended, toNat_signMask,
    signedOverflow_iff, toInt_one, toInt_eq_cond w.bits_pos, Bool.toNat_false]
  generalize 2 ^ (w.bits - 1) = H at *
  split <;> omega

/-- The flags of `INC`. -/
theorem meets_inc (ho : original.setWidth w.bits = x) (hs : result.setWidth w.bits = (inc x).1) :
    (inc x).2.Meets old (updateIncFlags w old original result) := by
  have hsum := isSum_adc x 1 false
  have hflags := resultFlags_of_eq hs
  rw [truncate_eq hs] at hflags
  simp only [updateIncFlags, incDecFlagValues, truncate_eq ho, truncate_eq hs, hflags]
  refine meets_keepCarry rfl rfl rfl ?_ rfl rfl ?_
  · refine congrArg FlagEffect.set ?_
    rw [← extended_one w, auxiliary_extended]
    exact (hsum.auxiliary (four_lt_bits w)).symm
  · exact congrArg FlagEffect.set (inc_overflow x).symm

/-- The flags of `DEC`. -/
theorem meets_dec (ho : original.setWidth w.bits = x) (hs : result.setWidth w.bits = (dec x).1) :
    (dec x).2.Meets old (updateDecFlags w old original result) := by
  have hsum := isSum_sbb x 1 false
  have hflags := resultFlags_of_eq hs
  rw [truncate_eq hs] at hflags
  simp only [updateDecFlags, incDecFlagValues, truncate_eq ho, truncate_eq hs, hflags]
  refine meets_keepCarry rfl rfl rfl ?_ rfl rfl ?_
  · refine congrArg FlagEffect.set ?_
    rw [← extended_one w, auxiliary_extended]
    exact (hsum.auxiliary_sub (four_lt_bits w)).symm
  · exact congrArg FlagEffect.set (dec_overflow x).symm

/-- The flags of a logical operation. -/
theorem meets_logic (hs : result.setWidth w.bits = x) :
    (logicEffects x).Meets old (updateLogicFlags w old result) := by
  simp only [logicEffects, updateLogicFlags, resultFlags_of_eq hs]
  exact meets_replace rfl rfl (.inl rfl) rfl rfl rfl

/-- The flags of `BT`. -/
theorem meets_bitTest {index : BitVec 64} (hv : value.setWidth w.bits = x)
    (hlt : maskedCount w index < w.bits) :
    (bitTestEffects x (maskedCount w index)).Meets old (updateBitTestFlags w old value index) := by
  have hbit : value.getLsbD (maskedCount w index) = x.getLsbD (maskedCount w index) := by
    rw [← hv, BitVec.getLsbD_setWidth, decide_eq_true hlt, Bool.true_and]
  have hflags : flagsOf flagCarry = { carry := true } := by decide
  rw [updateBitTestFlags, shiftCount_eq, hbit]
  refine meets_composeFlags (by decide) ?_ trivial trivial ?_ trivial trivial <;> rw [hflags]
  · simp [bitTestEffects, FlagEffect.Meets]
  · simp [bitTestEffects, FlagEffect.Meets]

end

/-! ## Every helper -/

/-- A call of a flag helper, with its width and the values it is given. The values of a rotate that
its helper does not get are here to say what was rotated. -/
inductive FlagCall
  | add (w : Width) (lhs rhs result : BitVec 64)
  | adc (w : Width) (lhs rhs carry : BitVec 64)
  | sub (w : Width) (lhs rhs result : BitVec 64)
  | sbb (w : Width) (lhs rhs borrow : BitVec 64)
  | inc (w : Width) (original result : BitVec 64)
  | dec (w : Width) (original result : BitVec 64)
  | logic (w : Width) (result : BitVec 64)
  | shiftLeft (w : Width) (lhs result count : BitVec 64)
  | shiftRight (w : Width) (lhs result count : BitVec 64)
  | shiftRightArithmetic (w : Width) (lhs result count : BitVec 64)
  | shiftLeftDouble (lhs source result count : BitVec 64)
  | shiftRightDouble (lhs source result count : BitVec 64)
  | rotateLeft (w : Width) (lhs result count : BitVec 64)
  | rotateRight (w : Width) (lhs result count : BitVec 64)
  | bitTest (w : Width) (value index : BitVec 64)

namespace FlagCall

/-- The helper exists for the width. -/
def Exists : FlagCall → Prop
  | adc w .. | shiftLeft w .. | shiftRight w .. => w ∈ [Width.i8, .i32, .i64]
  | shiftRightArithmetic w .. | rotateRight w .. | bitTest w .. => w ∈ [Width.i32, .i64]
  | rotateLeft w .. => w ∈ [Width.i16, .i32, .i64]
  | _ => True

/-- The values are those of the operation : the result is the result of the operands. -/
def Consistent : FlagCall → Prop
  | add w lhs rhs result =>
    result.setWidth w.bits = (X86.adc (lhs.setWidth w.bits) (rhs.setWidth w.bits) false).1
  | sub w lhs rhs result =>
    result.setWidth w.bits = (X86.sbb (lhs.setWidth w.bits) (rhs.setWidth w.bits) false).1
  | inc w original result => result.setWidth w.bits = (X86.inc (original.setWidth w.bits)).1
  | dec w original result => result.setWidth w.bits = (X86.dec (original.setWidth w.bits)).1
  | shiftLeft w lhs result count =>
    result.setWidth w.bits = lhs.setWidth w.bits <<< maskedCount w count
  | shiftRight w lhs result count =>
    result.setWidth w.bits = lhs.setWidth w.bits >>> maskedCount w count
  | shiftRightArithmetic w lhs result count =>
    result.setWidth w.bits = (lhs.setWidth w.bits).sshiftRight (maskedCount w count)
  | shiftLeftDouble lhs source result count =>
    result = lhs <<< maskedCount .i64 count ||| source >>> (64 - maskedCount .i64 count)
  | shiftRightDouble lhs source result count =>
    result = lhs >>> maskedCount .i64 count ||| source <<< (64 - maskedCount .i64 count)
  | rotateLeft w lhs result count =>
    result.setWidth w.bits = (lhs.setWidth w.bits).rotateLeft (maskedCount w count)
  | rotateRight w lhs result count =>
    result.setWidth w.bits = (lhs.setWidth w.bits).rotateRight (maskedCount w count)
  | adc .. | sbb .. | logic .. | bitTest .. => True

/-- What the architecture says of the flags. -/
def effects : FlagCall → FlagEffects
  | add w lhs rhs _ => (X86.adc (lhs.setWidth w.bits) (rhs.setWidth w.bits) false).2
  | adc w lhs rhs carry =>
    (X86.adc (lhs.setWidth w.bits) (rhs.setWidth w.bits) (carry.getLsbD 0)).2
  | sub w lhs rhs _ => (X86.sbb (lhs.setWidth w.bits) (rhs.setWidth w.bits) false).2
  | sbb w lhs rhs borrow =>
    (X86.sbb (lhs.setWidth w.bits) (rhs.setWidth w.bits) (borrow.getLsbD 0)).2
  | inc w original _ => (X86.inc (original.setWidth w.bits)).2
  | dec w original _ => (X86.dec (original.setWidth w.bits)).2
  | logic w result => logicEffects (result.setWidth w.bits)
  | shiftLeft w lhs _ count => (shl (lhs.setWidth w.bits) (maskedCount w count)).2
  | shiftRight w lhs _ count => (shr (lhs.setWidth w.bits) (maskedCount w count)).2
  | shiftRightArithmetic w lhs _ count => (sar (lhs.setWidth w.bits) (maskedCount w count)).2
  | shiftLeftDouble lhs source _ count => (shld lhs source (maskedCount .i64 count)).2
  | shiftRightDouble lhs source _ count => (shrd lhs source (maskedCount .i64 count)).2
  | rotateLeft w lhs _ count => (rol (lhs.setWidth w.bits) (maskedCount w count)).2
  | rotateRight w lhs _ count => (ror (lhs.setWidth w.bits) (maskedCount w count)).2
  | bitTest w value index => bitTestEffects (value.setWidth w.bits) (maskedCount w index)

/-- RFLAGS after the helper. -/
def update (rflags : BitVec 64) : FlagCall → BitVec 64
  | add w lhs rhs result => addFlags w rflags lhs rhs result
  | adc w lhs rhs carry => updateAdcFlags w rflags lhs rhs carry
  | sub w lhs rhs result => updateSubFlags w rflags lhs rhs result
  | sbb w lhs rhs borrow => updateSbbFlags w rflags lhs rhs borrow
  | inc w original result => updateIncFlags w rflags original result
  | dec w original result => updateDecFlags w rflags original result
  | logic w result => updateLogicFlags w rflags result
  | shiftLeft w lhs result count => updateShiftLeftFlags w rflags lhs result count
  | shiftRight w lhs result count => updateShiftRightFlags w rflags lhs result count
  | shiftRightArithmetic w lhs result count =>
    updateShiftRightArithmeticFlags w rflags lhs result count
  | shiftLeftDouble lhs _ result count => updateShiftLeftFlags .i64 rflags lhs result count
  | shiftRightDouble lhs _ result count => updateShiftRightDoubleFlags rflags lhs result count
  | rotateLeft w _ result count => updateRotateLeftFlags w rflags result count
  | rotateRight w _ result count => updateRotateRightFlags w rflags result count
  | bitTest w value index => updateBitTestFlags w rflags value index

/-- A 16-bit rotate to the left by the whole width. -/
def RotatesWhole : FlagCall → Prop
  | rotateLeft .i16 _ _ count => maskedCount .i16 count = 16
  | _ => False

end FlagCall

theorem maskedCount_lt_of_wide {w : Width} (h : w ∈ [Width.i32, .i64]) (count : BitVec 64) :
    maskedCount w count < w.bits := by
  simp only [List.mem_cons, List.not_mem_nil, or_false] at h
  rcases h with rfl | rfl
  · exact Nat.mod_lt _ (by decide)
  · exact Nat.mod_lt _ (by decide)

/-- The count that the helper of `ROL` uses. -/
theorem rotateLeft_count {w : Width} (h : w ∈ [Width.i16, .i32, .i64]) (count : BitVec 64) :
    (if w = .i16 then shiftCount w count % 16 else shiftCount w count) =
      maskedCount w count % w.bits := by
  rw [shiftCount_eq]
  by_cases h16 : w = .i16
  · subst h16
    rfl
  · have hwide : w ∈ [Width.i32, .i64] := by
      simpa [h16] using h
    rw [if_neg h16, Nat.mod_eq_of_lt (maskedCount_lt_of_wide hwide count)]

/-- Only a 16-bit count can be a multiple of the width. -/
theorem maskedCount_eq_zero {w : Width} (h : w ∈ [Width.i16, .i32, .i64]) {count : BitVec 64}
    (h16 : w = .i16 → maskedCount w count ≠ 16) (h0 : maskedCount w count % w.bits = 0) :
    maskedCount w count = 0 := by
  by_cases hw : w = .i16
  · subst hw
    have hlt : maskedCount .i16 count < 32 := Nat.mod_lt _ (by decide)
    have hne := h16 rfl
    have hbits : Width.bits .i16 = 16 := rfl
    rw [hbits] at h0
    omega
  · have hwide : w ∈ [Width.i32, .i64] := by
      simpa [hw] using h
    rwa [Nat.mod_eq_of_lt (maskedCount_lt_of_wide hwide count)] at h0

/-- A rotate by the whole width leaves the carry of every RFLAGS alone. -/
theorem not_meets_rotatesWhole (lhs result : BitVec 64) {count : BitVec 64}
    (h : maskedCount .i16 count = 16) :
    ∃ old, ¬(FlagCall.rotateLeft .i16 lhs result count).effects.Meets old
      ((FlagCall.rotateLeft .i16 lhs result count).update old) := by
  have hsame : ∀ old, (FlagCall.rotateLeft .i16 lhs result count).update old = old := by
    intro old
    simp only [FlagCall.update, updateRotateLeftFlags, shiftCount_eq, h]
    rfl
  have hset : (FlagCall.rotateLeft .i16 lhs result count).effects.carry =
      .set (((lhs.setWidth (Width.bits .i16)).rotateLeft 16).getLsbD 0) := by
    simp only [FlagCall.effects, rol, h]
    rfl
  -- an RFLAGS with the other carry
  refine ⟨flagWhen (!((lhs.setWidth (Width.bits .i16)).rotateLeft 16).getLsbD 0) flagCarry,
    fun hmeets => ?_⟩
  have hcarry := hmeets.carry
  rw [hsame, hset, FlagEffect.Meets] at hcarry
  revert hcarry
  cases ((lhs.setWidth (Width.bits .i16)).rotateLeft 16).getLsbD 0 <;> decide

/-- Every flag helper does what the architecture says, from every RFLAGS, if and only if the call
is not a 16-bit rotate to the left by the whole width. -/
theorem flagHelpers_iff (call : FlagCall) (he : call.Exists) (hc : call.Consistent) :
    (∀ old, call.effects.Meets old (call.update old)) ↔ ¬call.RotatesWhole := by
  cases call with
  | add => exact ⟨fun _ => id, fun _ old => meets_add rfl rfl hc⟩
  | adc => exact ⟨fun _ => id, fun _ old => meets_adc rfl rfl⟩
  | sub => exact ⟨fun _ => id, fun _ old => meets_sub rfl rfl hc⟩
  | sbb => exact ⟨fun _ => id, fun _ old => meets_sbb rfl rfl⟩
  | inc => exact ⟨fun _ => id, fun _ old => meets_inc rfl hc⟩
  | dec => exact ⟨fun _ => id, fun _ old => meets_dec rfl hc⟩
  | logic => exact ⟨fun _ => id, fun _ old => meets_logic rfl⟩
  | shiftLeft => exact ⟨fun _ => id, fun _ old => meets_shl rfl hc (shiftCount_eq _)⟩
  | shiftRight => exact ⟨fun _ => id, fun _ old => meets_shr rfl hc (shiftCount_eq _)⟩
  | shiftRightArithmetic => exact ⟨fun _ => id, fun _ old => meets_sar rfl hc (shiftCount_eq _)⟩
  | shiftLeftDouble =>
    exact ⟨fun _ => id, fun _ old =>
      meets_shld hc (shiftCount_eq _) (Nat.mod_lt _ (by decide))⟩
  | shiftRightDouble => exact ⟨fun _ => id, fun _ old => meets_shrd hc (shiftCount_eq _)⟩
  | rotateLeft w lhs result count =>
    constructor
    · intro hall hwhole
      cases w with
      | i16 =>
        obtain ⟨old, hnot⟩ := not_meets_rotatesWhole lhs result hwhole
        exact hnot (hall old)
      | _ => exact hwhole
    · intro hwhole old
      refine meets_rol hc (rotateLeft_count he count) (maskedCount_eq_zero he ?_)
      rintro rfl
      exact hwhole
  | rotateRight => exact ⟨fun _ => id, fun _ old => meets_ror hc (shiftCount_eq _)⟩
  | bitTest w value index =>
    exact ⟨fun _ => id, fun _ old => meets_bitTest rfl (maskedCount_lt_of_wide he index)⟩

/-- A 16-bit rotate of one by `count`. -/
def rotateOne (count : BitVec 64) : FlagCall :=
  .rotateLeft .i16 1 (((1 : BitVec 16).rotateLeft (maskedCount .i16 count)).setWidth 64) count

theorem flagHelpers_rotateOne_fifteen :
    (rotateOne 15).Exists ∧ (rotateOne 15).Consistent ∧
      ∀ old, (rotateOne 15).effects.Meets old ((rotateOne 15).update old) := by
  have he : (rotateOne 15).Exists := by
    simp [rotateOne, FlagCall.Exists]
  have hc : (rotateOne 15).Consistent := by
    simp only [rotateOne, FlagCall.Consistent]
    decide
  refine ⟨he, hc, (flagHelpers_iff _ he hc).mpr ?_⟩
  simp only [rotateOne, FlagCall.RotatesWhole]
  decide

/-- The lowest bit is rotated through the carry and back, and a clear carry stays clear. -/
theorem not_meets_rotateOne_sixteen :
    (rotateOne 16).Exists ∧ (rotateOne 16).Consistent ∧
      ¬(rotateOne 16).effects.Meets 2 ((rotateOne 16).update 2) := by
  refine ⟨by simp [rotateOne, FlagCall.Exists], ?_, fun hmeets => ?_⟩
  · simp only [rotateOne, FlagCall.Consistent]
    decide
  · have hcarry : (flagsOf 2).carry =
        ((BitVec.setWidth 16 (1 : BitVec 64)).rotateLeft 16).getLsbD 0 := hmeets.carry
    exact absurd hcarry (by decide)

end X86

end Rosa
