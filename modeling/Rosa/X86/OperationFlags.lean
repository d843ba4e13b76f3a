import Rosa.X86.Operations

/-!
# The flag updates of shifts, rotates and multiplications

An update composes RFLAGS from the bits it keeps and the flags it computes. `meets_composeFlags`
says when that is within the effects of an instruction; the lemmas after it say so of the helper
of each family, for an operand and a result that hold the value at the width, whatever the
host register has above it.
-/

namespace Rosa

namespace X86

open Lowering

/-! ## Flags -/

section

variable {old replaced : BitVec 64} {f : FlagValues}

/-- The bits that no flag update touches. -/
theorem composeFlags_others (h : replaced &&& ~~~arithmeticFlagMask = 0#64) :
    composeFlags (old &&& ~~~replaced) f &&& ~~~arithmeticFlagMask &&& ~~~flagReservedOne =
      old &&& ~~~arithmeticFlagMask &&& ~~~flagReservedOne := by
  have hsplit : composeFlags (old &&& ~~~replaced) f =
      (old &&& ~~~replaced) ||| composeFlags 0 f := by
    simp [composeFlags, BitVec.or_assoc]
  have harith : composeFlags 0 f &&& ~~~arithmeticFlagMask &&& ~~~flagReservedOne = 0#64 := by
    rcases f with ⟨_ | _, _ | _, _ | _, _ | _, _ | _, _ | _⟩ <;> decide
  have hkept : old &&& ~~~replaced &&& ~~~arithmeticFlagMask = old &&& ~~~arithmeticFlagMask := by
    apply BitVec.eq_of_getLsbD_eq
    intro i hi
    have hbit := congrArg (BitVec.getLsbD · i) h
    simp only [BitVec.getLsbD_and, BitVec.getLsbD_not, hi, decide_true, Bool.true_and,
      BitVec.getLsbD_zero] at hbit ⊢
    cases hr : replaced.getLsbD i
    · simp
    · rw [hr, Bool.true_and] at hbit
      simp [hbit]
  rw [hsplit, BitVec.and_or_distrib_right, BitVec.and_or_distrib_right, harith, hkept,
    BitVec.or_zero]

theorem meets_composeFlags {e : FlagEffects} (h : replaced &&& ~~~arithmeticFlagMask = 0#64)
    (hc : e.carry.Meets (flagsOf old).carry
      ((flagsOf old).carry && !(flagsOf replaced).carry || f.carry))
    (hp : e.parity.Meets (flagsOf old).parity
      ((flagsOf old).parity && !(flagsOf replaced).parity || f.parity))
    (ha : e.auxiliaryCarry.Meets (flagsOf old).auxiliaryCarry
      ((flagsOf old).auxiliaryCarry && !(flagsOf replaced).auxiliaryCarry || f.auxiliaryCarry))
    (hz : e.zero.Meets (flagsOf old).zero
      ((flagsOf old).zero && !(flagsOf replaced).zero || f.zero))
    (hs : e.sign.Meets (flagsOf old).sign
      ((flagsOf old).sign && !(flagsOf replaced).sign || f.sign))
    (ho : e.overflow.Meets (flagsOf old).overflow
      ((flagsOf old).overflow && !(flagsOf replaced).overflow || f.overflow)) :
    e.Meets old (composeFlags (old &&& ~~~replaced) f) := by
  have hnot : flagsOf (~~~replaced) = ⟨!(flagsOf replaced).carry, !(flagsOf replaced).parity,
      !(flagsOf replaced).auxiliaryCarry, !(flagsOf replaced).zero, !(flagsOf replaced).sign,
      !(flagsOf replaced).overflow⟩ := by
    simp [flagsOf]
  refine ⟨?_, ?_, ?_, ?_, ?_, ?_, composeFlags_others h⟩
  all_goals rw [flagsOf_composeFlags, flagsOf_and, hnot]; assumption

theorem FlagEffects.meets_none : FlagEffects.none.Meets old old :=
  ⟨rfl, rfl, rfl, rfl, rfl, rfl, rfl⟩

/-- The flags of a shift. -/
theorem meets_shift {k : Nat} {result : BitVec k} {carry overflow : FlagEffect} {c : Bool}
    {count : Nat} (hp : f.parity = parityEven (result.setWidth 64)) (hz : f.zero = (result == 0#k))
    (hs : f.sign = result.msb) (hc : carry = .undefined ∨ c = true ∧ carry = .set f.carry)
    (ho : overflow = .undefined ∨ count = 1 ∧ overflow = .set f.overflow) :
    (FlagEffects.ofResult result carry overflow .undefined).Meets old
      (composeFlags (old &&& ~~~shiftReplaced c count) f) := by
  have hflags : flagsOf (shiftReplaced c count) = ⟨c, true, false, true, true, count == 1⟩ := by
    unfold shiftReplaced
    cases c <;> cases (count == 1) <;> decide
  have harith : shiftReplaced c count &&& ~~~arithmeticFlagMask = 0#64 := by
    unfold shiftReplaced
    cases c <;> cases (count == 1) <;> decide
  refine meets_composeFlags harith ?_ ?_ trivial ?_ ?_ ?_ <;> rw [hflags]
  · rcases hc with rfl | ⟨rfl, rfl⟩
    · trivial
    · simp [FlagEffects.ofResult, FlagEffect.Meets]
  · simp [FlagEffects.ofResult, FlagEffect.Meets, hp]
  · simp [FlagEffects.ofResult, FlagEffect.Meets, hz]
  · simp [FlagEffects.ofResult, FlagEffect.Meets, hs]
  · rcases ho with rfl | ⟨rfl, rfl⟩
    · trivial
    · simp [FlagEffects.ofResult, FlagEffect.Meets]

/-- The flags of a rotate. -/
theorem meets_rotate {c : Bool} {overflow : FlagEffect} {count : Nat}
    (hf : f = { carry := c, overflow := f.overflow })
    (ho : overflow = .undefined ∨ count = 1 ∧ overflow = .set f.overflow) :
    { FlagEffects.none with carry := .set c, overflow := overflow }.Meets old
      (composeFlags (old &&& ~~~rotateReplaced count) f) := by
  have hflags : flagsOf (rotateReplaced count) = ⟨true, false, false, false, false, count == 1⟩ := by
    unfold rotateReplaced
    cases (count == 1) <;> decide
  have harith : rotateReplaced count &&& ~~~arithmeticFlagMask = 0#64 := by
    unfold rotateReplaced
    cases (count == 1) <;> decide
  rw [hf]
  refine meets_composeFlags harith ?_ ?_ ?_ ?_ ?_ ?_ <;> rw [hflags]
  · simp [FlagEffect.Meets]
  · simp [FlagEffect.Meets, FlagEffects.none]
  · simp [FlagEffect.Meets, FlagEffects.none]
  · simp [FlagEffect.Meets, FlagEffects.none]
  · simp [FlagEffect.Meets, FlagEffects.none]
  · rcases ho with rfl | ⟨rfl, rfl⟩
    · trivial
    · simp [FlagEffect.Meets]

/-- The flags of a multiplication. -/
theorem meets_overflowing (b : Bool) :
    (FlagEffects.overflowing b).Meets old
      (composeFlags (old &&& ~~~(flagCarry ||| flagOverflow)) { carry := b, overflow := b }) := by
  have hflags : flagsOf (flagCarry ||| flagOverflow) = ⟨true, false, false, false, false, true⟩ := by
    decide
  refine meets_composeFlags (by decide) ?_ trivial trivial trivial trivial ?_ <;> rw [hflags]
  · simp [FlagEffect.Meets, FlagEffects.overflowing]
  · simp [FlagEffect.Meets, FlagEffects.overflowing]

/-- Flags that are all replaced. -/
theorem meets_replace {e : FlagEffects} (hc : e.carry = .set f.carry) (hp : e.parity = .set f.parity)
    (ha : e.auxiliaryCarry = .undefined ∨ e.auxiliaryCarry = .set f.auxiliaryCarry)
    (hz : e.zero = .set f.zero) (hs : e.sign = .set f.sign) (ho : e.overflow = .set f.overflow) :
    e.Meets old (composeFlags (old &&& ~~~arithmeticFlagMask) f) := by
  refine ⟨?_, ?_, ?_, ?_, ?_, ?_, composeFlags_others (by decide)⟩ <;> rw [flagsOf_replace]
  · rw [hc]; rfl
  · rw [hp]; rfl
  · rcases ha with ha | ha <;> rw [ha]
    · trivial
    · rfl
  · rw [hz]; rfl
  · rw [hs]; rfl
  · rw [ho]; rfl

end

/-! ## Flags of results -/

section

variable {w : Width} {v result count old : BitVec 64} {x : BitVec w.bits} {c : Nat}

theorem truncate_eq (h : v.setWidth w.bits = x) : w.truncate v = x.setWidth 64 := by
  rw [Width.truncate, h]

theorem setWidth_beq_zero (x : BitVec w.bits) : (x.setWidth 64 == 0) = (x == 0#w.bits) := by
  have hle := w.bits_le
  rw [Bool.eq_iff_iff, beq_iff_eq, beq_iff_eq]
  constructor
  · intro h
    have := congrArg (BitVec.setWidth w.bits) h
    rwa [BitVec.setWidth_setWidth_of_le _ hle, BitVec.setWidth_eq,
      show ((0 : BitVec 64).setWidth w.bits) = 0#w.bits from BitVec.setWidth_zero _ _] at this
  · rintro rfl
    exact BitVec.setWidth_zero _ _

theorem getLsbD_extended (x : BitVec w.bits) {k : Nat} (hk : k < 64) :
    (x.setWidth 64).getLsbD k = x.getLsbD k := by
  rw [BitVec.getLsbD_setWidth, decide_eq_true hk, Bool.true_and]

theorem signBit_extended (x : BitVec w.bits) : w.signBit (x.setWidth 64) = x.msb := by
  have hle := w.bits_le
  have hpos := w.bits_pos
  rw [Width.signBit, getLsbD_extended x (by omega), BitVec.msb_eq_getLsbD_last]

theorem signBit_of_eq (h : v.setWidth w.bits = x) : w.signBit v = x.msb := by
  rw [← Width.signBit_truncate, truncate_eq h, signBit_extended]

theorem resultFlags_of_eq (h : v.setWidth w.bits = x) :
    resultFlags w (w.truncate v) =
      { parity := parityEven (x.setWidth 64), zero := x == 0#w.bits, sign := x.msb } := by
  rw [truncate_eq h, resultFlags, setWidth_beq_zero, signBit_extended]

/-- The flags of `SHL` are the helper's. -/
theorem meets_shl (hv : v.setWidth w.bits = x) (hr : result.setWidth w.bits = x <<< c)
    (hc : shiftCount w count = c) :
    (shl x c).2.Meets old (updateShiftLeftFlags w old v result count) := by
  have hle := w.bits_le
  simp only [shl, updateShiftLeftFlags, hc, resultFlags_of_eq hr]
  by_cases h0 : c = 0
  · simp only [if_pos h0]
    exact FlagEffects.meets_none
  · simp only [if_neg h0]
    have hbit : (w.truncate v).getLsbD (w.bits - c) = x.getLsbD (w.bits - c) := by
      rw [truncate_eq hv, getLsbD_extended x (by omega)]
    have hhas : c < w.bits → (w != .i8 || decide (c < 8)) = true := by
      intro h
      cases w <;> first | rfl | exact decide_eq_true h
    refine meets_shift rfl rfl rfl ?_ ?_
    · by_cases hlt : c < w.bits
      · refine .inr ⟨hhas hlt, ?_⟩
        rw [if_pos hlt, hhas hlt, Bool.true_and, hbit]
      · exact .inl (if_neg hlt)
    · by_cases h1 : c = 1
      · refine .inr ⟨h1, ?_⟩
        have hlt : c < w.bits := by
          subst h1
          cases w <;> decide
        rw [if_pos h1, hhas hlt, Bool.true_and, hbit, truncate_eq hr, signBit_extended, h1]
        simp
      · exact .inl (if_neg h1)

/-- The flags of `SHR`. -/
theorem meets_shr (hv : v.setWidth w.bits = x) (hr : result.setWidth w.bits = x >>> c)
    (hc : shiftCount w count = c) :
    (shr x c).2.Meets old (updateShiftRightFlags w old v result count) := by
  have hle := w.bits_le
  simp only [shr, updateShiftRightFlags, hc, resultFlags_of_eq hr]
  by_cases h0 : c = 0
  · simp only [if_pos h0]
    exact FlagEffects.meets_none
  · simp only [if_neg h0]
    refine meets_shift rfl rfl rfl ?_ ?_
    · by_cases hlt : c < w.bits
      · refine .inr ⟨rfl, ?_⟩
        rw [if_pos hlt, truncate_eq hv, getLsbD_extended x (by omega)]
      · exact .inl (if_neg hlt)
    · by_cases h1 : c = 1
      · refine .inr ⟨h1, ?_⟩
        rw [if_pos h1, signBit_of_eq hv, h1]
        simp
      · exact .inl (if_neg h1)

/-- The flags of `SAR`. -/
theorem meets_sar (hv : v.setWidth w.bits = x) (hr : result.setWidth w.bits = x.sshiftRight c)
    (hc : shiftCount w count = c) :
    (sar x c).2.Meets old (updateShiftRightArithmeticFlags w old v result count) := by
  have hle := w.bits_le
  simp only [sar, updateShiftRightArithmeticFlags, hc, resultFlags_of_eq hr]
  by_cases h0 : c = 0
  · simp only [if_pos h0]
    exact FlagEffects.meets_none
  · simp only [if_neg h0]
    refine meets_shift rfl rfl rfl ?_ ?_
    · by_cases hlt : c < w.bits
      · refine .inr ⟨rfl, ?_⟩
        rw [if_pos hlt, truncate_eq hv, getLsbD_extended x (by omega)]
      · exact .inl (if_neg hlt)
    · by_cases h1 : c = 1
      · exact .inr ⟨h1, if_pos h1⟩
      · exact .inl (if_neg h1)

/-- The flags of `ROL` by a count that is not a multiple of the width, or zero. -/
theorem meets_rol (hr : result.setWidth w.bits = x.rotateLeft c)
    (hc : (if w = .i16 then shiftCount w count % 16 else shiftCount w count) = c % w.bits)
    (h16 : c % w.bits = 0 → c = 0) :
    (rol x c).2.Meets old (updateRotateLeftFlags w old result count) := by
  have hle := w.bits_le
  have hpos := w.bits_pos
  simp only [rol, updateRotateLeftFlags, hc]
  by_cases h0 : c = 0
  · have hzero : c % w.bits = 0 := by rw [h0, Nat.zero_mod]
    simp only [if_pos h0, if_pos hzero]
    exact FlagEffects.meets_none
  · simp only [if_neg h0, if_neg fun h => h0 (h16 h)]
    have hbit : result.getLsbD 0 = (x.rotateLeft c).getLsbD 0 := by
      rw [← hr, BitVec.getLsbD_setWidth, decide_eq_true hpos, Bool.true_and]
    rw [← hbit, ← signBit_of_eq hr]
    refine meets_rotate rfl ?_
    by_cases h1 : c = 1
    · have hone : c % w.bits = 1 := by
        subst h1
        cases w <;> rfl
      refine .inr ⟨hone, ?_⟩
      rw [if_pos h1, hone]
      simp
    · exact .inl (if_neg h1)

/-- The flags of `ROR`. -/
theorem meets_ror (hr : result.setWidth w.bits = x.rotateRight c) (hc : shiftCount w count = c) :
    (ror x c).2.Meets old (updateRotateRightFlags w old result count) := by
  have hle := w.bits_le
  have hpos := w.bits_pos
  simp only [ror, updateRotateRightFlags, hc]
  by_cases h0 : c = 0
  · simp only [if_pos h0]
    exact FlagEffects.meets_none
  · simp only [if_neg h0]
    have hbit : result.getLsbD (w.bits - 2) = (x.rotateRight c).getLsbD (w.bits - 2) := by
      rw [← hr, BitVec.getLsbD_setWidth, decide_eq_true (by omega), Bool.true_and]
    rw [← hbit, ← signBit_of_eq hr]
    refine meets_rotate rfl ?_
    by_cases h1 : c = 1
    · refine .inr ⟨h1, ?_⟩
      rw [if_pos h1, h1]
      simp
    · exact .inl (if_neg h1)

/-- The flags of `OR`. -/
theorem meets_or {y : BitVec w.bits} (hr : result.setWidth w.bits = x ||| y) :
    (or x y).2.Meets old (updateLogicFlags w old result) := by
  simp only [or, updateLogicFlags, resultFlags_of_eq hr]
  exact meets_replace rfl rfl (.inl rfl) rfl rfl rfl

end

section

variable {x y result count old : BitVec 64} {c : Nat}

/-- The flags of `SHLD`. -/
theorem meets_shld (hr : result = x <<< c ||| y >>> (64 - c)) (hc : shiftCount .i64 count = c)
    (hlt : c < 64) :
    (shld x y c).2.Meets old (updateShiftLeftFlags .i64 old x result count) := by
  have hself : result.setWidth (Width.bits .i64) = result := BitVec.setWidth_eq _
  simp only [shld, updateShiftLeftFlags, hc, Width.truncate_i64, ← hr]
  by_cases h0 : c = 0
  · simp only [if_pos h0]
    exact FlagEffects.meets_none
  · simp only [if_neg h0]
    refine meets_shift rfl rfl rfl (.inr ⟨rfl, rfl⟩) ?_
    by_cases h1 : c = 1
    · refine .inr ⟨h1, ?_⟩
      rw [if_pos h1, signBit_of_eq hself, h1, BitVec.msb_eq_getLsbD_last x]
      rfl
    · exact .inl (if_neg h1)

/-- The flags of `SHRD`. -/
theorem meets_shrd (hr : result = x >>> c ||| y <<< (64 - c)) (hc : shiftCount .i64 count = c) :
    (shrd x y c).2.Meets old (updateShiftRightDoubleFlags old x result count) := by
  have hself : result.setWidth (Width.bits .i64) = result := BitVec.setWidth_eq _
  have hflags := resultFlags_of_eq hself
  rw [Width.truncate_i64] at hflags
  simp only [shrd, updateShiftRightDoubleFlags, hc, hflags, ← hr]
  by_cases h0 : c = 0
  · simp only [if_pos h0]
    exact FlagEffects.meets_none
  · simp only [if_neg h0]
    refine meets_shift rfl rfl rfl (.inr ⟨rfl, rfl⟩) ?_
    by_cases h1 : c = 1
    · refine .inr ⟨h1, ?_⟩
      rw [if_pos h1, h1, BitVec.msb_eq_getLsbD_last x, BitVec.msb_eq_getLsbD_last result,
        Bool.xor_comm, ← BitVec.getLsbD_xor]
      rfl
    · exact .inl (if_neg h1)

end

section

variable {w : Width} {v v' result old : BitVec 64} {x y : BitVec w.bits}

theorem neg_borrow (h : 4 < w.bits) (x : BitVec w.bits) :
    (x.getLsbD 4 ^^ (-x).getLsbD 4) = (x.setWidth 4 != 0#4) := by
  rw [BitVec.getLsbD_neg, decide_eq_true h, Bool.true_and, ← Bool.xor_assoc, Bool.xor_self,
    Bool.false_xor, Bool.eq_iff_iff, decide_eq_true_iff, bne_iff_ne, ne_eq]
  constructor
  · rintro ⟨j, hj, hbit⟩ hzero
    have := congrArg (BitVec.getLsbD · j) hzero
    simp [hj, hbit] at this
  · intro hne
    by_contra hall
    refine hne (BitVec.eq_of_getLsbD_eq fun j hj => ?_)
    rw [BitVec.getLsbD_setWidth, decide_eq_true hj, Bool.true_and, BitVec.getLsbD_zero]
    by_contra hbit
    exact hall ⟨j, hj, by simpa using hbit⟩

theorem neg_overflow (x : BitVec w.bits) :
    (x.msb && (-x).msb) = (x.toInt == -2 ^ (w.bits - 1)) := by
  have hmin : (BitVec.intMin w.bits).toInt = -2 ^ (w.bits - 1) := by cases w <;> decide
  have hmsb : (BitVec.intMin w.bits).msb = true := by cases w <;> decide
  have hne : BitVec.intMin w.bits ≠ 0#w.bits := by cases w <;> decide
  rw [← hmin, BitVec.msb_neg, Bool.eq_iff_iff, beq_iff_eq, BitVec.toInt_inj]
  constructor
  · intro h
    by_contra hx
    cases hm : x.msb
    · rw [hm] at h
      exact absurd h (by simp)
    · have hz : x ≠ 0#w.bits := by
        rintro rfl
        rw [BitVec.msb_zero] at hm
        exact absurd hm (by simp)
      simp [hm, hx, hz] at h
  · rintro rfl
    simp [hmsb]

/-- The flags of `NEG`. -/
theorem meets_neg (hv : v.setWidth w.bits = x) (hr : result.setWidth w.bits = -x) :
    (neg x).2.Meets old (updateSubFlags w old 0 v result) := by
  have hle := w.bits_le
  have h4 : 4 < w.bits := by cases w <;> decide
  have hzero : w.truncate 0 = 0#64 := Width.truncate_zero w
  have hflags := resultFlags_of_eq hr
  rw [truncate_eq hr] at hflags
  simp only [neg, updateSubFlags, subFlagValues, truncate_eq hv, truncate_eq hr, hflags, hzero,
    BitVec.zero_xor]
  refine meets_replace ?_ rfl (.inr ?_) rfl rfl ?_
  · refine congrArg FlagEffect.set ?_
    rw [Bool.eq_iff_iff, bne_iff_ne, BitVec.ult, decide_eq_true_iff, BitVec.toNat_setWidth_of_le hle,
      BitVec.toNat_ofNat, Nat.zero_mod, Nat.pos_iff_ne_zero, ne_eq, ne_eq, ← BitVec.toNat_inj]
    simp
  · refine congrArg FlagEffect.set ?_
    rw [BitVec.getLsbD_xor, getLsbD_extended x (by omega), getLsbD_extended (-x) (by omega),
      neg_borrow h4]
  · refine congrArg FlagEffect.set ?_
    rw [Width.signBit, BitVec.getLsbD_and, ← Width.signBit, ← Width.signBit, signBit_extended,
      signBit_extended, neg_overflow]

/-- The flags of the signed multiplications. -/
theorem meets_imul (hv : v.setWidth w.bits = x) (hv' : v'.setWidth w.bits = y) :
    (imul x y).2.Meets old (updateSignedMultiplyFlags w old v v') := by
  have hflag : decide (x.toInt * y.toInt < -2 ^ (w.bits - 1) ∨
      2 ^ (w.bits - 1) ≤ x.toInt * y.toInt) = decide ((x * y).toInt ≠ x.toInt * y.toInt) := by
    rw [decide_eq_decide]
    constructor
    · intro hrange heq
      have hlow := BitVec.le_toInt (x * y)
      have hhigh := BitVec.toInt_lt (x := x * y)
      rw [heq] at hlow hhigh
      omega
    · intro hne
      by_contra hrange
      refine hne (BitVec.toInt_mul_of_not_smulOverflow ?_)
      simp only [BitVec.smulOverflow, Bool.or_eq_true, decide_eq_true_eq]
      omega
  simp only [imul, updateSignedMultiplyFlags, hv, hv', hflag]
  exact meets_overflowing _

end

end X86

end Rosa
