import Rosa.Arm64.Assembler

/-!
# Inline flag code

The flag updates that `arm64/Backend.cpp` emits inline, next to the helpers of
`dbt/FlagHelpers.cpp` and `dbt/FlagSemantics.h` that do the same for the widths and the
callers that are not inline. The inline code assembles the new RFLAGS in `x16`, one flag
at a time, and each flag is one short sequence : a test that branches over an `orr`.
`Assembled` says what holds between two of these sequences, and each of them has one
lemma.
-/

namespace Rosa.Arm64

open Instruction

/-! ## The emitted code -/

/-- Set a flag in `x16` unless the branch is taken. -/
def setFlagUnless (branch : Label → Instruction) (flag : BitVec 64) : List Instruction :=
  [branch 0, movImmediate 17 flag, bitOr 16 16 17, bind 0]

/-- RFLAGS without the bits of `replaced`, and with the reserved bit. -/
def keepFlags (replaced : BitVec 64) : List Instruction :=
  [ldrRflags 16, movImmediate 17 (~~~replaced), bitAnd 16 16 17,
    movImmediate 17 flagReservedOne, bitOr 16 16 17]

/-- The parity flag of a register. -/
def parityCode (result : XRegister) : List Instruction :=
  [mov 17 result, bitXorShiftedRight 17 17 17 4, bitXorShiftedRight 17 17 17 2,
    bitXorShiftedRight 17 17 17 1] ++ setFlagUnless (tbnz 17 0) flagParity

/-- The carry flag of a comparison. -/
def carryCode (lhs rhs : XRegister) : List Instruction :=
  compare lhs rhs :: setFlagUnless (bConditional .unsignedHigherOrSame) flagCarry

/-- The auxiliary carry of three registers. -/
def auxiliaryCode (lhs rhs result : XRegister) : List Instruction :=
  [bitXor 17 lhs rhs, bitXor 17 17 result] ++ setFlagUnless (tbz 17 4) flagAuxiliaryCarry

/-- The zero flag of a register. -/
def zeroCode (result : XRegister) : List Instruction := setFlagUnless (cbnz result) flagZero

/-- The sign flag of a register that holds a value of the width. -/
def signCode (result : XRegister) (w : Width) : List Instruction :=
  [lsrImmediate 17 result (w.bits - 1), bitOrShiftedLeft 16 16 17 7]

/-- The overflow flag : both exclusive ors have the sign bit. -/
def overflowCode (a b c d : XRegister) (w : Width) : List Instruction :=
  [bitXor 17 a b, bitXor 1 c d, bitAnd 17 17 1] ++
    setFlagUnless (tbz 17 (w.bits - 1)) flagOverflow

/-- A value of the width in a scratch register; `x17` is the mask. -/
def maskInto (w : Width) (destination source : XRegister) : Instruction :=
  if w = .i64 then mov destination source else bitAnd destination source 17

/-- The mask of the width in `x17`, which the 64-bit form does not need. -/
def loadMask (w : Width) : List Instruction :=
  if w = .i64 then [] else [movImmediate 17 w.mask]

/-- `emitLogicFlags`. -/
def emitLogicFlags (result : ValueRegister) (w : Width) : List Instruction :=
  loadMask w ++ [maskInto w 1 result.1] ++ keepFlags arithmeticFlagMask ++ parityCode 1 ++
    zeroCode 1 ++ signCode 1 w ++ [strRflags 16]

/-- `emitSubFlags64`. -/
def emitSubFlags64 (lhs rhs result : ValueRegister) : List Instruction :=
  keepFlags arithmeticFlagMask ++ carryCode lhs.1 rhs.1 ++ parityCode result.1 ++
    auxiliaryCode lhs.1 rhs.1 result.1 ++ zeroCode result.1 ++ signCode result.1 .i64 ++
    overflowCode lhs.1 rhs.1 lhs.1 result.1 .i64 ++ [strRflags 16]

/-- The `UpdateAddFlags` case. -/
def emitAddFlags (w : Width) (lhs rhs result : ValueRegister) : List Instruction :=
  loadMask w ++ [maskInto w 1 lhs.1, maskInto w 2 rhs.1, maskInto w 3 result.1] ++
    keepFlags arithmeticFlagMask ++ carryCode 3 1 ++ parityCode 3 ++ auxiliaryCode 1 2 3 ++
    zeroCode 3 ++ signCode 3 w ++ overflowCode 1 3 2 3 w ++ [strRflags 16]

/-- The 8-bit `UpdateSubFlags` case. -/
def emitSubFlags8 (lhs rhs result : ValueRegister) : List Instruction :=
  [movImmediate 17 0xFF, bitAnd 1 lhs.1 17, bitAnd 2 rhs.1 17, bitAnd 3 result.1 17] ++
    keepFlags arithmeticFlagMask ++ carryCode 1 2 ++ parityCode 3 ++ auxiliaryCode 1 2 3 ++
    zeroCode 3 ++ signCode 3 .i8 ++ overflowCode 1 2 1 3 .i8 ++ [strRflags 16]

/-- The 64-bit `UpdateDecFlags` case. -/
def emitDecFlags64 (original result : ValueRegister) : List Instruction :=
  keepFlags (arithmeticFlagMask &&& ~~~flagCarry) ++ parityCode result.1 ++
    (bitXor 17 original.1 result.1 :: setFlagUnless (tbz 17 4) flagAuxiliaryCarry) ++
    zeroCode result.1 ++ signCode result.1 .i64 ++
    [movImmediate 17 0x8000000000000000, compare original.1 17, movImmediate 17 flagOverflow,
      bitOr 17 16 17, conditionalSelectEqual 16 17 16, strRflags 16]

/-! ## The helpers -/

/-- `std::popcount(value & 0xFF) % 2 == 0`. -/
def evenPopcount (value : BitVec 64) : Bool :=
  ((List.range 64).countP fun i => (value &&& 0xFF).getLsbD i) % 2 == 0

/-- `updateLogicFlags8`, `16`, `32` and `64`. -/
def Helpers.updateLogicFlags (w : Width) (rflags resultValue : BitVec 64) : BitVec 64 :=
  let result := w.truncate resultValue
  composeFlags (rflags &&& ~~~arithmeticFlagMask)
    { parity := evenPopcount result
      zero := result == 0
      sign := result >>> (w.bits - 1) != 0 }

/-- `updateSubFlags8`, `16`, `32` and `64`. -/
def Helpers.updateSubFlags (w : Width) (rflags lhsValue rhsValue resultValue : BitVec 64) :
    BitVec 64 :=
  let lhs := w.truncate lhsValue
  let rhs := w.truncate rhsValue
  let result := w.truncate resultValue
  composeFlags (rflags &&& ~~~arithmeticFlagMask)
    { carry := lhs.ult rhs
      parity := evenPopcount result
      auxiliaryCarry := (lhs ^^^ rhs ^^^ result) &&& 0x10 != 0
      zero := result == 0
      sign := result >>> (w.bits - 1) != 0
      overflow := ((lhs ^^^ rhs) &&& (lhs ^^^ result)) >>> (w.bits - 1) != 0 }

/-- `updateAddFlags8`, `16`, `32` and `64`. The 64-bit helper has no wider type for the
sum and takes the carry from the result it is given. -/
def Helpers.updateAddFlags (w : Width) (rflags lhsValue rhsValue resultValue : BitVec 64) :
    BitVec 64 :=
  let lhs := w.truncate lhsValue
  let rhs := w.truncate rhsValue
  let result := w.truncate resultValue
  composeFlags (rflags &&& ~~~arithmeticFlagMask)
    { carry := if w = .i64 then result.ult lhs else 2 ^ w.bits - 1 < lhs.toNat + rhs.toNat
      parity := evenPopcount result
      auxiliaryCarry := (lhs ^^^ rhs ^^^ result) &&& 0x10 != 0
      zero := result == 0
      sign := if w = .i64 then result >>> 63 != 0 else result &&& signMask w != 0
      overflow :=
        if w = .i64 then (~~~(lhs ^^^ rhs) &&& (lhs ^^^ result)) >>> 63 != 0
        else (~~~(lhs ^^^ rhs) &&& (lhs ^^^ result)) &&& signMask w != 0 }

/-- `updateDecFlags64`. -/
def Helpers.updateDecFlags64 (rflags original result : BitVec 64) : BitVec 64 :=
  composeFlags (rflags &&& ~~~(arithmeticFlagMask &&& ~~~flagCarry))
    { parity := evenPopcount result
      auxiliaryCarry := (original ^^^ 1 ^^^ result) &&& 0x10 != 0
      zero := result == 0
      sign := result &&& 0x8000000000000000 != 0
      overflow := original == 0x8000000000000000 }

/-! ## One flag at a time -/

@[simp] theorem flagWhen_false (flag : BitVec 64) : flagWhen false flag = 0#64 := rfl

/-- The registers of values are not those the flags are assembled in. -/
theorem ValueRegister.not_target (r : ValueRegister) : r.1 ≠ 16 ∧ r.1 ≠ 17 :=
  ⟨r.ne_scratch (by decide), r.ne_scratch (by decide)⟩

/-- Between two flags : `x16` is the new RFLAGS so far, and all that changed since `h₀` is
`x16` and `x17`. -/
structure Assembled (h₀ h : Host) (flags : BitVec 64) : Prop where
  x16 : h.x 16 = flags
  rflags : h.rflags = h₀.rflags
  kept : ∀ r, r ≠ 16 → r ≠ 17 → h.x r = h₀.x r

/-- The sequence runs to its end and adds `added` to the flags. -/
def Adds (code : List Instruction) (h₀ : Host) (added : BitVec 64) : Prop :=
  ∀ h flags, Assembled h₀ h flags →
    ∃ h', run code h = (h', none) ∧ Assembled h₀ h' (flags ||| added)

variable {h₀ h : Host} {a b : List Instruction} {f g flag : BitVec 64} {r : XRegister}

theorem Adds.append (ha : Adds a h₀ f) (hb : Adds b h₀ g) : Adds (a ++ b) h₀ (f ||| g) := by
  intro h flags hh
  obtain ⟨h₁, hrun₁, hh₁⟩ := ha h flags hh
  obtain ⟨h₂, hrun₂, hh₂⟩ := hb h₁ _ hh₁
  refine ⟨h₂, ?_, ?_⟩
  · rw [run_append hrun₁, hrun₂]
  · rw [← BitVec.or_assoc]
    exact hh₂

/-- A test of the state `h₁` that a prelude leaves, and the flag it guards. -/
theorem adds_setFlagUnless {p : List Instruction} {branch : Label → Instruction}
    {taken : Bool}
    (hprelude : ∀ h flags, Assembled h₀ h flags → ∃ h₁, run p h = (h₁, none) ∧
      Assembled h₀ h₁ flags ∧ (branch 0).execute h₁ = (h₁, if taken then some 0 else none)) :
    Adds (p ++ setFlagUnless branch flag) h₀ (flagWhen (!taken) flag) := by
  intro h flags hh
  obtain ⟨h₁, hrun, hh₁, hbranch⟩ := hprelude h flags hh
  rw [run_append hrun]
  cases taken with
  | true =>
    refine ⟨h₁, ?_, by simpa [flagWhen] using hh₁⟩
    simp [setFlagUnless, run, advance, hbranch]
  | false =>
    refine ⟨(h₁.set 17 flag).set 16 (h₁.x 16 ||| flag), ?_, ?_, ?_, ?_⟩
    · rw [setFlagUnless, run_cons (by simpa using hbranch)]
      simp [run, advance, execute]
    · simp [flagWhen, hh₁.x16]
    · simp [hh₁.rflags]
    · intro r h16 h17
      simp [h16, h17, hh₁.kept r h16 h17]

theorem adds_parityCode (h16 : r ≠ 16) (h17 : r ≠ 17) :
    Adds (parityCode r) h₀ (flagWhen (parityFold (h₀.x r)) flagParity) := by
  rw [show parityFold (h₀.x r) = !!parityFold (h₀.x r) by simp]
  refine adds_setFlagUnless fun h flags hh => ?_
  refine ⟨_, rfl, ⟨?_, ?_, ?_⟩, ?_⟩
  · simp [hh.x16]
  · simp [hh.rflags]
  · intro s h16 h17
    simp [h17, hh.kept s h16 h17]
  · simp [execute, hh.kept r h16 h17, parityFold]

theorem adds_carryCode {lhs rhs : XRegister} (hl16 : lhs ≠ 16) (hl17 : lhs ≠ 17) (hr16 : rhs ≠ 16)
    (hr17 : rhs ≠ 17) :
    Adds (carryCode lhs rhs) h₀ (flagWhen ((h₀.x lhs).ult (h₀.x rhs)) flagCarry) := by
  rw [show (h₀.x lhs).ult (h₀.x rhs) = !!(h₀.x lhs).ult (h₀.x rhs) by simp]
  refine adds_setFlagUnless (p := [compare lhs rhs]) fun h flags hh => ?_
  refine ⟨_, rfl, ⟨hh.x16, hh.rflags, hh.kept⟩, ?_⟩
  simp [execute, BranchCondition.holds, Nzcv.ofCompare, hh.kept lhs hl16 hl17,
    hh.kept rhs hr16 hr17]

theorem adds_auxiliaryCode {lhs rhs result : XRegister} (hl16 : lhs ≠ 16) (hl17 : lhs ≠ 17)
    (hr16 : rhs ≠ 16) (hr17 : rhs ≠ 17) (h16 : result ≠ 16) (h17 : result ≠ 17) :
    Adds (auxiliaryCode lhs rhs result) h₀
      (flagWhen ((h₀.x lhs ^^^ h₀.x rhs ^^^ h₀.x result).getLsbD 4) flagAuxiliaryCarry) := by
  rw [show (h₀.x lhs ^^^ h₀.x rhs ^^^ h₀.x result).getLsbD 4 =
    !!(h₀.x lhs ^^^ h₀.x rhs ^^^ h₀.x result).getLsbD 4 by simp]
  refine adds_setFlagUnless fun h flags hh => ?_
  refine ⟨_, rfl, ⟨?_, ?_, ?_⟩, ?_⟩
  · simp [hh.x16]
  · simp [hh.rflags]
  · intro s h16 h17
    simp [h17, hh.kept s h16 h17]
  · simp [execute, h17, hh.kept lhs hl16 hl17, hh.kept rhs hr16 hr17, hh.kept result h16 h17]

theorem adds_zeroCode (h16 : r ≠ 16) (h17 : r ≠ 17) :
    Adds (zeroCode r) h₀ (flagWhen (h₀.x r == 0) flagZero) := by
  rw [show (h₀.x r == 0) = !(h₀.x r != 0) by simp [bne]]
  refine adds_setFlagUnless (p := []) fun h flags hh => ?_
  exact ⟨h, rfl, hh, by simp [execute, hh.kept r h16 h17]⟩

/-- The top bit of a value of the width, moved to the sign flag. -/
theorem sign_shifted {w : Width} {v : BitVec 64} (hv : w.truncate v = v) :
    v >>> (w.bits - 1) <<< 7 = flagWhen (w.signBit v) flagSign := by
  apply BitVec.eq_of_getLsbD_eq
  intro i hi
  have hbits := w.bits_pos
  have hhigh (j : Nat) (hj : w.bits ≤ j) : v.getLsbD j = false := by
    rw [← hv, Width.getLsbD_truncate]
    simp [Nat.not_lt.mpr hj]
  simp only [BitVec.getLsbD_shiftLeft, BitVec.getLsbD_ushiftRight, getLsbD_flagWhen, hi,
    Width.signBit, decide_true, Bool.true_and]
  have hflag : ∀ j : Fin 64, flagSign.getLsbD j = decide (j = 7) := by decide
  have hf : flagSign.getLsbD i = decide (i = 7) := by
    simpa [Fin.ext_iff] using hflag ⟨i, hi⟩
  rw [hf]
  rcases lt_trichotomy i 7 with hlt | rfl | hgt
  · simp [hlt, hlt.ne]
  · simp
  · rw [hhigh _ (by omega)]
    simp [hgt.ne']

theorem adds_signCode {w : Width} (h16 : r ≠ 16) (h17 : r ≠ 17)
    (hv : w.truncate (h₀.x r) = h₀.x r) :
    Adds (signCode r w) h₀ (flagWhen (w.signBit (h₀.x r)) flagSign) := by
  intro h flags hh
  refine ⟨_, rfl, ?_, ?_, ?_⟩
  · simp [hh.x16, hh.kept r h16 h17, sign_shifted hv]
  · simp [hh.rflags]
  · intro s h16 h17
    simp [h16, h17, hh.kept s h16 h17]

theorem rflags_overflowCode {p q c d : XRegister} {w : Width} (hp : p ≠ 16 ∧ p ≠ 17)
    (hq : q ≠ 16 ∧ q ≠ 17) (hc : c ≠ 16 ∧ c ≠ 17) (hd : d ≠ 16 ∧ d ≠ 17) {flags : BitVec 64}
    (hh : Assembled h₀ h flags) :
    (run (overflowCode p q c d w ++ [strRflags 16]) h).1.rflags =
      flags ||| flagWhen
        (w.signBit ((h₀.x p ^^^ h₀.x q) &&& (h₀.x c ^^^ h₀.x d))) flagOverflow := by
  have hc17 := hc.2
  have hd17 := hd.2
  replace hp := hh.kept p hp.1 hp.2
  replace hq := hh.kept q hq.1 hq.2
  replace hc := hh.kept c hc.1 hc.2
  replace hd := hh.kept d hd.1 hd.2
  cases hs : w.signBit ((h₀.x p ^^^ h₀.x q) &&& (h₀.x c ^^^ h₀.x d)) with
  | true =>
    have hs' : (((h₀.x p ^^^ h₀.x q) &&& (h₀.x c ^^^ h₀.x d))).getLsbD (w.bits - 1) = true := hs
    simp only [BitVec.getLsbD_and, BitVec.getLsbD_xor] at hs'
    simp [overflowCode, setFlagUnless, run, advance, execute, flagWhen, hp, hq, hc, hd, hc17, hd17,
      hs', hh.x16]
  | false =>
    have hs' : (((h₀.x p ^^^ h₀.x q) &&& (h₀.x c ^^^ h₀.x d))).getLsbD (w.bits - 1) = false := hs
    simp only [BitVec.getLsbD_and, BitVec.getLsbD_xor] at hs'
    simp [overflowCode, setFlagUnless, run, advance, execute, flagWhen, hp, hq, hc, hd, hc17, hd17,
      hs', hh.x16]

/-- `keepFlags` starts the assembly. -/
theorem run_keepFlags (h : Host) (replaced : BitVec 64) :
    ∃ h', run (keepFlags replaced) h = (h', none) ∧
      Assembled h h' (h.rflags &&& ~~~replaced ||| flagReservedOne) := by
  refine ⟨_, rfl, ?_, ?_, ?_⟩
  · simp
  · simp
  · intro r h16 h17
    simp [h16, h17]

/-! ## What the emitted code leaves -/

/-- The whole assembly : the flags before the overflow, then the overflow and the store. -/
theorem rflags_of_adds (replaced : BitVec 64) {added : BitVec 64} {code last : List Instruction} {v : BitVec 64}
    (hcode : Adds code h added)
    (hlast : ∀ h' flags, Assembled h h' flags → (run last h').1.rflags = flags ||| v) :
    (run (keepFlags replaced ++ code ++ last) h).1.rflags =
      h.rflags &&& ~~~replaced ||| flagReservedOne ||| added ||| v := by
  obtain ⟨h₁, hrun₁, hh₁⟩ := run_keepFlags h replaced
  obtain ⟨h₂, hrun₂, hh₂⟩ := hcode h₁ _ hh₁
  rw [List.append_assoc, run_append hrun₁, run_append hrun₂]
  exact hlast h₂ _ hh₂

/-- The store after the last flag. -/
theorem rflags_strRflags {flags : BitVec 64} (hh : Assembled h₀ h flags) :
    (run [strRflags 16] h).1.rflags = flags ||| 0 := by
  simp [run, advance, execute, hh.x16]

/-- The operands of a three-operand update, truncated into `x1`, `x2` and `x3`. -/
theorem run_maskOperands (w : Width) (h : Host) (lhs rhs result : ValueRegister) :
    ∃ h', run (loadMask w ++ [maskInto w 1 lhs.1, maskInto w 2 rhs.1, maskInto w 3 result.1]) h =
        (h', none) ∧ h'.rflags = h.rflags ∧ h'.x 1 = w.truncate (h.x lhs.1) ∧
      h'.x 2 = w.truncate (h.x rhs.1) ∧ h'.x 3 = w.truncate (h.x result.1) := by
  have hr1 := rhs.ne_scratch (s := 1) (by decide)
  have hr17 := rhs.ne_scratch (s := 17) (by decide)
  have hl17 := lhs.ne_scratch (s := 17) (by decide)
  have hs1 := result.ne_scratch (s := 1) (by decide)
  have hs2 := result.ne_scratch (s := 2) (by decide)
  have hs17 := result.ne_scratch (s := 17) (by decide)
  cases w with
  | i64 => exact ⟨_, rfl, rfl, by simp, by simp [hr1], by simp [hs1, hs2]⟩
  | i8 | i16 | i32 =>
    refine ⟨_, rfl, rfl, ?_, ?_, ?_⟩
    · simp [hl17, Width.and_mask]
    · simp [hr17, hr1, Width.and_mask]
    · simp [hs17, hs1, hs2, Width.and_mask]

theorem run_maskResult (w : Width) (h : Host) (result : ValueRegister) :
    ∃ h', run (loadMask w ++ [maskInto w 1 result.1]) h = (h', none) ∧ h'.rflags = h.rflags ∧
      h'.x 1 = w.truncate (h.x result.1) := by
  have hs17 := result.ne_scratch (s := 17) (by decide)
  cases w with
  | i64 => exact ⟨_, rfl, rfl, by simp⟩
  | i8 | i16 | i32 => exact ⟨_, rfl, rfl, by simp [hs17, Width.and_mask]⟩

theorem rflags_emitLogicFlags (w : Width) (h : Host) (result : ValueRegister) :
    (run (emitLogicFlags result w) h).1.rflags =
      updateLogicFlags w h.rflags (h.x result.1) := by
  obtain ⟨h₁, hrun, hflags, hx⟩ := run_maskResult w h result
  have hadds : Adds (parityCode 1 ++ zeroCode 1 ++ signCode 1 w) h₁ _ :=
    ((adds_parityCode (by decide) (by decide)).append
      (adds_zeroCode (by decide) (by decide))).append
      (adds_signCode (by decide) (by decide) (by rw [hx, Width.truncate_truncate]))
  have hall := rflags_of_adds arithmeticFlagMask hadds
    fun _ _ hh => rflags_strRflags hh
  have hcode : emitLogicFlags result w = (loadMask w ++ [maskInto w 1 result.1]) ++
      (keepFlags arithmeticFlagMask ++ (parityCode 1 ++ zeroCode 1 ++ signCode 1 w) ++
        [strRflags 16]) := by
    simp only [emitLogicFlags, List.append_assoc]
  rw [hcode, run_append hrun, hall, hflags, hx]
  simp [updateLogicFlags, composeFlags, resultFlags, parityFold_eq, BitVec.or_assoc]

/-- The six flags of a three-operand update, from its masked operands. -/
theorem adds_threeOperands (h₀ : Host) {w : Width} {a b lhs rhs result : XRegister}
    (hl : lhs ≠ 16 ∧ lhs ≠ 17) (hr : rhs ≠ 16 ∧ rhs ≠ 17) (hs : result ≠ 16 ∧ result ≠ 17)
    (ha : a ≠ 16 ∧ a ≠ 17) (hb : b ≠ 16 ∧ b ≠ 17) (hv : w.truncate (h₀.x result) = h₀.x result) :
    Adds (carryCode a b ++ parityCode result ++ auxiliaryCode lhs rhs result ++ zeroCode result ++
      signCode result w) h₀
      (flagWhen ((h₀.x a).ult (h₀.x b)) flagCarry |||
        flagWhen (parityFold (h₀.x result)) flagParity |||
        flagWhen ((h₀.x lhs ^^^ h₀.x rhs ^^^ h₀.x result).getLsbD 4) flagAuxiliaryCarry |||
        flagWhen (h₀.x result == 0) flagZero ||| flagWhen (w.signBit (h₀.x result)) flagSign) :=
  ((((adds_carryCode ha.1 ha.2 hb.1 hb.2).append (adds_parityCode hs.1 hs.2)).append
    (adds_auxiliaryCode hl.1 hl.2 hr.1 hr.2 hs.1 hs.2)).append (adds_zeroCode hs.1 hs.2)).append
    (adds_signCode hs.1 hs.2 hv)

/-- The same with the operands in `x1`, `x2` and `x3`. -/
theorem adds_scratch (h₀ : Host) (w : Width) {a b : XRegister} (ha : a ≠ 16 ∧ a ≠ 17)
    (hb : b ≠ 16 ∧ b ≠ 17) (hv : w.truncate (h₀.x 3) = h₀.x 3) :
    Adds (carryCode a b ++ parityCode 3 ++ auxiliaryCode 1 2 3 ++ zeroCode 3 ++ signCode 3 w) h₀
      (flagWhen ((h₀.x a).ult (h₀.x b)) flagCarry ||| flagWhen (parityFold (h₀.x 3)) flagParity |||
        flagWhen ((h₀.x 1 ^^^ h₀.x 2 ^^^ h₀.x 3).getLsbD 4) flagAuxiliaryCarry |||
        flagWhen (h₀.x 3 == 0) flagZero ||| flagWhen (w.signBit (h₀.x 3)) flagSign) :=
  adds_threeOperands h₀ (by decide) (by decide) (by decide) ha hb hv

theorem rflags_emitSubFlags64 (h : Host) (lhs rhs result : ValueRegister) :
    (run (emitSubFlags64 lhs rhs result) h).1.rflags =
      updateSubFlags .i64 h.rflags (h.x lhs.1) (h.x rhs.1) (h.x result.1) := by
  have hl := lhs.not_target
  have hr := rhs.not_target
  have hs := result.not_target
  have hall := rflags_of_adds arithmeticFlagMask
    (adds_threeOperands h (w := .i64) hl hr hs hl hr (Width.truncate_i64 _))
    fun _ _ hh => rflags_overflowCode (w := .i64) hl hr hl hs hh
  have hcode : emitSubFlags64 lhs rhs result = keepFlags arithmeticFlagMask ++
      (carryCode lhs.1 rhs.1 ++ parityCode result.1 ++ auxiliaryCode lhs.1 rhs.1 result.1 ++
        zeroCode result.1 ++ signCode result.1 .i64) ++
      (overflowCode lhs.1 rhs.1 lhs.1 result.1 .i64 ++ [strRflags 16]) := by
    simp only [emitSubFlags64, List.append_assoc]
  rw [hcode, hall]
  simp [updateSubFlags, subFlagValues, composeFlags, resultFlags, parityFold_eq, BitVec.or_assoc]

/-- The rest of a masked update, from the state with the operands in `x1`, `x2`, `x3`. -/
theorem rflags_emitAddFlags (w : Width) (h : Host) (lhs rhs result : ValueRegister) :
    (run (emitAddFlags w lhs rhs result) h).1.rflags =
      updateAddFlags w h.rflags (h.x lhs.1) (h.x rhs.1) (h.x result.1) := by
  obtain ⟨h₁, hrun, hflags, hx1, hx2, hx3⟩ := run_maskOperands w h lhs rhs result
  have hall := rflags_of_adds arithmeticFlagMask
    (adds_scratch h₁ w (a := 3) (b := 1) (by decide) (by decide)
      (by rw [hx3, Width.truncate_truncate]))
    fun _ _ hh => rflags_overflowCode (p := 1) (q := 3) (c := 2) (d := 3) (w := w) (by decide)
      (by decide) (by decide) (by decide) hh
  have hcode : emitAddFlags w lhs rhs result =
      (loadMask w ++ [maskInto w 1 lhs.1, maskInto w 2 rhs.1, maskInto w 3 result.1]) ++
      (keepFlags arithmeticFlagMask ++
        (carryCode 3 1 ++ parityCode 3 ++ auxiliaryCode 1 2 3 ++ zeroCode 3 ++ signCode 3 w) ++
        (overflowCode 1 3 2 3 w ++ [strRflags 16])) := by
    simp only [emitAddFlags, List.append_assoc]
  rw [hcode, run_append hrun, hall, hflags, hx1, hx2, hx3]
  simp [updateAddFlags, addFlagValues, composeFlags, resultFlags, parityFold_eq, BitVec.or_assoc]

theorem rflags_emitSubFlags8 (h : Host) (lhs rhs result : ValueRegister) :
    (run (emitSubFlags8 lhs rhs result) h).1.rflags =
      updateSubFlags .i8 h.rflags (h.x lhs.1) (h.x rhs.1) (h.x result.1) := by
  obtain ⟨h₁, hrun, hflags, hx1, hx2, hx3⟩ := run_maskOperands .i8 h lhs rhs result
  have hall := rflags_of_adds arithmeticFlagMask
    (adds_scratch h₁ .i8 (a := 1) (b := 2) (by decide) (by decide)
      (by rw [hx3, Width.truncate_truncate]))
    fun _ _ hh => rflags_overflowCode (p := 1) (q := 2) (c := 1) (d := 3) (w := .i8) (by decide)
      (by decide) (by decide) (by decide) hh
  have hcode : emitSubFlags8 lhs rhs result =
      (loadMask .i8 ++ [maskInto .i8 1 lhs.1, maskInto .i8 2 rhs.1, maskInto .i8 3 result.1]) ++
      (keepFlags arithmeticFlagMask ++
        (carryCode 1 2 ++ parityCode 3 ++ auxiliaryCode 1 2 3 ++ zeroCode 3 ++ signCode 3 .i8) ++
        (overflowCode 1 2 1 3 .i8 ++ [strRflags 16])) := rfl
  rw [hcode, run_append hrun, hall, hflags, hx1, hx2, hx3]
  simp [updateSubFlags, subFlagValues, composeFlags, resultFlags, parityFold_eq, BitVec.or_assoc]

theorem rflags_emitDecFlags64 (h : Host) (original result : ValueRegister) :
    (run (emitDecFlags64 original result) h).1.rflags =
      updateDecFlags .i64 h.rflags (h.x original.1) (h.x result.1) := by
  have ho := original.not_target
  have hs := result.not_target
  have hauxiliary : Adds (bitXor 17 original.1 result.1 :: setFlagUnless (tbz 17 4)
      flagAuxiliaryCarry) h (flagWhen
        (!!(h.x original.1 ^^^ h.x result.1).getLsbD 4) flagAuxiliaryCarry) := by
    refine adds_setFlagUnless (p := [bitXor 17 original.1 result.1]) fun h' flags hh => ?_
    refine ⟨_, rfl, ⟨?_, ?_, ?_⟩, ?_⟩
    · simp [hh.x16]
    · simp [hh.rflags]
    · intro r h16 h17
      simp [h17, hh.kept r h16 h17]
    · simp [execute, hh.kept _ ho.1 ho.2, hh.kept _ hs.1 hs.2]
  have hadds : Adds (parityCode result.1 ++ (bitXor 17 original.1 result.1 ::
      setFlagUnless (tbz 17 4) flagAuxiliaryCarry) ++ zeroCode result.1 ++
      signCode result.1 .i64) h _ :=
    (((adds_parityCode hs.1 hs.2).append hauxiliary).append (adds_zeroCode hs.1 hs.2)).append
      (adds_signCode (w := .i64) hs.1 hs.2 (Width.truncate_i64 _))
  have hlast (h' : Host) (flags : BitVec 64) (hh : Assembled h h' flags) :
      (run [movImmediate 17 0x8000000000000000, compare original.1 17, movImmediate 17 flagOverflow,
        bitOr 17 16 17, conditionalSelectEqual 16 17 16, strRflags 16] h').1.rflags =
      flags ||| flagWhen (h.x original.1 == 0x8000000000000000) flagOverflow := by
    by_cases hz : h.x original.1 = 0x8000000000000000
    · simp [run, advance, execute, Nzcv.ofCompare, ho.2, hh.kept _ ho.1 ho.2, hh.x16, flagWhen, hz]
    · have hsub : h.x original.1 - 0x8000000000000000 ≠ 0 := by
        intro hzero
        apply hz
        bv_omega
      simp only [BitVec.ofNat_eq_ofNat] at hz hsub
      simp [run, advance, execute, Nzcv.ofCompare, ho.2, hh.kept _ ho.1 ho.2, hh.x16, flagWhen,
        hsub, hz]
  have hall := rflags_of_adds (arithmeticFlagMask &&& ~~~flagCarry) hadds hlast
  have hcode : emitDecFlags64 original result = keepFlags (arithmeticFlagMask &&& ~~~flagCarry) ++
      (parityCode result.1 ++ (bitXor 17 original.1 result.1 ::
        setFlagUnless (tbz 17 4) flagAuxiliaryCarry) ++ zeroCode result.1 ++
        signCode result.1 .i64) ++
      [movImmediate 17 0x8000000000000000, compare original.1 17, movImmediate 17 flagOverflow,
        bitOr 17 16 17, conditionalSelectEqual 16 17 16, strRflags 16] := by
    simp only [emitDecFlags64, List.append_assoc]
  rw [hcode, hall]
  simp [updateDecFlags, incDecFlagValues, composeFlags, resultFlags, parityFold_eq,
    BitVec.or_assoc, signMask, Width.bits]

/-! ## The helpers compute the same flags -/

theorem evenPopcount_eq (v : BitVec 64) : evenPopcount v = parityEven v := by
  have hmask : ∀ i : Fin 64, (0xFF : BitVec 64).getLsbD i = decide (i < 8) := by decide
  have hbit (i : Nat) (hi : i ∈ List.range 64) :
      (v &&& 0xFF).getLsbD i = true ↔ (decide (i < 8) && v.getLsbD i) = true := by
    have hm := hmask ⟨i, List.mem_range.mp hi⟩
    simp only [Fin.lt_def] at hm
    rw [BitVec.getLsbD_and, hm, Bool.and_comm]
    rfl
  have hsplit : List.range 64 = List.range 8 ++ (List.range 56).map (8 + ·) := by decide
  have hlow (i : Nat) (hi : i ∈ List.range 8) :
      (decide (i < 8) && v.getLsbD i) = true ↔ v.getLsbD i = true := by
    simp [List.mem_range.mp hi]
  have hhigh : ((List.range 56).map (8 + ·)).countP (fun i => decide (i < 8) && v.getLsbD i) = 0 := by
    rw [List.countP_eq_zero]
    intro i hi
    obtain ⟨j, -, rfl⟩ := List.mem_map.mp hi
    simp
  rw [evenPopcount, List.countP_congr hbit, hsplit, List.countP_append, hhigh,
    List.countP_congr hlow, Nat.add_zero]
  rfl

theorem and_twoPow_bne (v : BitVec 64) (i : Nat) (hi : i < 64) :
    (v &&& BitVec.twoPow 64 i != 0) = v.getLsbD i := by
  have hne : BitVec.twoPow 64 i ≠ 0#64 := by
    intro h0
    have := congrArg (BitVec.getLsbD · i) h0
    simp [hi] at this
  rw [BitVec.and_twoPow]
  cases v.getLsbD i <;> simp [hne]

theorem auxiliary_bne (v : BitVec 64) : (v &&& 0x10 != 0) = v.getLsbD 4 :=
  and_twoPow_bne v 4 (by decide)

theorem signMask_bne (w : Width) (v : BitVec 64) : (v &&& signMask w != 0) = w.signBit v :=
  and_twoPow_bne v _ (by have := w.bits_le; have := w.bits_pos; omega)

theorem ushiftRight_bne {w : Width} {v : BitVec 64} (hv : w.truncate v = v) :
    (v >>> (w.bits - 1) != 0) = w.signBit v := by
  have hbits := w.bits_pos
  rw [Bool.eq_iff_iff, bne_iff_ne]
  constructor
  · intro hne
    by_contra hsign
    apply hne
    apply BitVec.eq_of_getLsbD_eq
    intro i _
    rw [BitVec.getLsbD_ushiftRight]
    rcases Nat.eq_zero_or_pos i with rfl | hpos
    · simpa [Width.signBit] using hsign
    · rw [← hv, Width.getLsbD_truncate]
      simp [show ¬w.bits - 1 + i < w.bits by omega]
  · intro hsign h0
    have hbit := congrArg (BitVec.getLsbD · 0) h0
    simp only [BitVec.getLsbD_ushiftRight, Nat.add_zero] at hbit
    rw [Width.signBit] at hsign
    simp [hsign] at hbit

theorem truncate_and {w : Width} {u v : BitVec 64} (hu : w.truncate u = u) :
    w.truncate (u &&& v) = u &&& v := by
  apply BitVec.eq_of_getLsbD_eq
  intro i _
  rw [Width.getLsbD_truncate, BitVec.getLsbD_and, ← hu, Width.getLsbD_truncate]
  cases decide (i < w.bits) <;> simp

theorem truncate_xor {w : Width} {u v : BitVec 64} (hu : w.truncate u = u)
    (hv : w.truncate v = v) : w.truncate (u ^^^ v) = u ^^^ v := by
  apply BitVec.eq_of_getLsbD_eq
  intro i _
  rw [Width.getLsbD_truncate, BitVec.getLsbD_xor, ← hu, ← hv, Width.getLsbD_truncate,
    Width.getLsbD_truncate]
  cases decide (i < w.bits) <;> simp

theorem Helpers.updateLogicFlags_eq (w : Width) (rflags result : BitVec 64) :
    Helpers.updateLogicFlags w rflags result = Rosa.updateLogicFlags w rflags result := by
  simp only [Helpers.updateLogicFlags, Rosa.updateLogicFlags, resultFlags, evenPopcount_eq,
    ushiftRight_bne (Width.truncate_truncate w result)]

theorem Helpers.updateSubFlags_eq (w : Width) (rflags lhs rhs result : BitVec 64) :
    Helpers.updateSubFlags w rflags lhs rhs result =
      Rosa.updateSubFlags w rflags lhs rhs result := by
  have ht (v : BitVec 64) := Width.truncate_truncate w v
  simp only [Helpers.updateSubFlags, Rosa.updateSubFlags, subFlagValues, resultFlags,
    evenPopcount_eq, auxiliary_bne, ushiftRight_bne (ht result),
    ushiftRight_bne (truncate_and (truncate_xor (ht lhs) (ht rhs)))]

theorem Helpers.updateDecFlags64_eq (rflags original result : BitVec 64) :
    Helpers.updateDecFlags64 rflags original result =
      Rosa.updateDecFlags .i64 rflags original result := by
  have hsign : (result &&& 0x8000000000000000 != 0) = Width.signBit .i64 result :=
    signMask_bne .i64 result
  simp only [Helpers.updateDecFlags64, Rosa.updateDecFlags, incDecFlagValues, resultFlags,
    Width.truncate_i64, evenPopcount_eq, auxiliary_bne, hsign]
  rfl

/-- At a width below 64 the helper takes the carry of the sum, the inline code that of the
result it is given : they agree if the result is the sum. -/
theorem carry_of_sum {w : Width} {lhs rhs result : BitVec 64} (hw : w ≠ .i64)
    (hsum : w.truncate result = w.truncate (lhs + rhs)) :
    decide (2 ^ w.bits - 1 < (w.truncate lhs).toNat + (w.truncate rhs).toNat) =
      (w.truncate result).ult (w.truncate lhs) := by
  have hbits : w.bits < 64 := by cases w <;> simp_all [Width.bits]
  have hnat (v : BitVec 64) : (w.truncate v).toNat = v.toNat % 2 ^ w.bits := by
    have hlt : v.toNat % 2 ^ w.bits < 2 ^ 64 :=
      (Nat.mod_lt _ (by positivity)).trans (Nat.pow_lt_pow_right (by decide) hbits)
    simp only [Width.truncate, BitVec.toNat_setWidth]
    exact Nat.mod_eq_of_lt hlt
  have hadd : (lhs + rhs).toNat % 2 ^ w.bits =
      (lhs.toNat % 2 ^ w.bits + rhs.toNat % 2 ^ w.bits) % 2 ^ w.bits := by
    rw [BitVec.toNat_add, Nat.mod_mod_of_dvd _ (Nat.pow_dvd_pow 2 hbits.le), Nat.add_mod]
  rw [BitVec.ult, hsum, hnat, hnat, hnat, hadd, decide_eq_decide]
  have hl := Nat.mod_lt lhs.toNat (show 0 < 2 ^ w.bits by positivity)
  have hr := Nat.mod_lt rhs.toNat (show 0 < 2 ^ w.bits by positivity)
  generalize lhs.toNat % 2 ^ w.bits = l at *
  generalize rhs.toNat % 2 ^ w.bits = r at *
  rcases Nat.lt_or_ge (l + r) (2 ^ w.bits) with hlt | hge
  · rw [Nat.mod_eq_of_lt hlt]
    omega
  · rw [Nat.mod_eq_sub_mod hge, Nat.mod_eq_of_lt (by omega)]
    omega

theorem Helpers.updateAddFlags_eq {w : Width} (rflags : BitVec 64) {lhs rhs result : BitVec 64}
    (hsum : w ≠ .i64 → w.truncate result = w.truncate (lhs + rhs)) :
    Helpers.updateAddFlags w rflags lhs rhs result =
      Rosa.updateAddFlags w rflags lhs rhs result := by
  by_cases hw : w = .i64
  · subst hw
    have hshift (v : BitVec 64) : (v >>> 63 != 0) = Width.signBit .i64 v :=
      ushiftRight_bne (w := .i64) (Width.truncate_i64 v)
    simp only [Helpers.updateAddFlags, Rosa.updateAddFlags, addFlagValues, resultFlags,
      evenPopcount_eq, auxiliary_bne, if_true, hshift, signBit_sum]
  · simp only [Helpers.updateAddFlags, Rosa.updateAddFlags, addFlagValues, resultFlags,
      evenPopcount_eq, auxiliary_bne, if_neg hw, signMask_bne, signBit_sum,
      carry_of_sum hw (hsum hw)]

end Rosa.Arm64
