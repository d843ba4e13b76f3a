import Rosa.Arm64.FlagCode

/-!
# Condition code

The ways `arm64/Backend.cpp` evaluates a guest condition. `ConditionalMoveGuestReg`,
`EvaluateCondition` and a conditional `ExitBlock` test bits of RFLAGS with the same
instructions and differ in what they do at the two ends. An exit whose flag update is
deferred compares the operands of the update instead and branches on the host's own
condition flags; it is never chosen for a parity condition.
-/

namespace Rosa.Arm64

open Instruction

/-! ## The emitted code -/

/-- The label of a condition that is known to hold. -/
def taken : Label := 1

/-- The label of a condition that does not hold. -/
def notTaken : Label := 0

/-- OF, shifted down onto SF, against SF. -/
def signOverflow : List Instruction := [lsrImmediate 17 16 4, bitXor 17 16 17]

/-- The test of the bits of RFLAGS in `x16`. It falls through or branches to `taken` if the
condition holds, and branches to `notTaken` if it does not. -/
def flagTest : Condition → List Instruction
  | .overflow => [tbz 16 11 notTaken]
  | .notOverflow => [tbnz 16 11 notTaken]
  | .parityEven => [tbz 16 2 notTaken]
  | .parityOdd => [tbnz 16 2 notTaken]
  | .equal => [tbz 16 6 notTaken]
  | .notEqual => [tbnz 16 6 notTaken]
  | .below => [tbz 16 0 notTaken]
  | .aboveOrEqual => [tbnz 16 0 notTaken]
  | .above => [tbnz 16 0 notTaken, tbnz 16 6 notTaken]
  | .belowOrEqual => [tbnz 16 0 taken, tbz 16 6 notTaken]
  | .sign => [tbz 16 7 notTaken]
  | .notSign => [tbnz 16 7 notTaken]
  | .less => signOverflow ++ [tbz 17 7 notTaken]
  | .greaterOrEqual => signOverflow ++ [tbnz 17 7 notTaken]
  | .lessOrEqual => tbnz 16 6 taken :: signOverflow ++ [tbz 17 7 notTaken]
  | .greater => tbnz 16 6 notTaken :: signOverflow ++ [tbnz 17 7 notTaken]

/-- The test of `ConditionalMoveGuestReg` : the move follows, and `notTaken` is after it. -/
def conditionalMoveTest (c : Condition) : List Instruction :=
  ldrRflags 16 :: (flagTest c ++ [bind taken])

/-- The test of a conditional `ExitBlock` : the taken exit follows, and `notTaken` is after
it. -/
def exitTest (c : Condition) : List Instruction := ldrRflags 16 :: (flagTest c ++ [bind taken])

/-- `EvaluateCondition` without fusion. -/
def evaluateCondition (c : Condition) (destination : ValueRegister) : List Instruction :=
  [movImmediate destination.1 0, ldrRflags 16] ++ flagTest c ++
    [bind taken, movImmediate destination.1 1, bind notTaken]

/-- The host condition under which a deferred exit branches to `notTaken`. The backend
throws for a parity condition. -/
def deferredBranch : Condition → Option BranchCondition
  | .overflow => some .noOverflow
  | .notOverflow => some .overflow
  | .parityEven | .parityOdd => none
  | .equal => some .notEqual
  | .notEqual => some .equal
  | .below => some .unsignedHigherOrSame
  | .aboveOrEqual => some .unsignedLower
  | .above => some .unsignedLowerOrSame
  | .belowOrEqual => some .unsignedHigher
  | .sign => some .nonNegative
  | .notSign => some .negative
  | .less => some .signedGreaterOrEqual
  | .greaterOrEqual => some .signedLess
  | .lessOrEqual => some .signedGreater
  | .greater => some .signedLessOrEqual

/-- The test of a deferred exit, on the operands of the deferred update. -/
def deferredExitTest (c : Condition) (lhs rhs : ValueRegister) : Option (List Instruction) :=
  (deferredBranch c).map fun branch => [compare lhs.1 rhs.1, bConditional branch notTaken]

/-! ## What the tests decide -/

/-- Where a test of the condition ends. -/
def testEnd (holds : Bool) : Option Label := if holds then none else some notTaken

theorem run_tbz (h : Host) (r : XRegister) (bit : Nat) :
    run [tbz r bit notTaken, bind taken] h = (h, testEnd ((h.x r).getLsbD bit)) := by
  cases hb : (h.x r).getLsbD bit <;>
    simp [run, advance, execute, testEnd, hb, taken, notTaken]

theorem run_tbnz (h : Host) (r : XRegister) (bit : Nat) :
    run [tbnz r bit notTaken, bind taken] h = (h, testEnd (!(h.x r).getLsbD bit)) := by
  cases hb : (h.x r).getLsbD bit <;>
    simp [run, advance, execute, testEnd, hb, taken, notTaken]

/-- A first test that ends the sequence, one way or the other, if the bit is set. -/
theorem run_tbnz_cons (h : Host) (r : XRegister) (bit : Nat) (label : Label)
    (code : List Instruction) :
    run (tbnz r bit label :: code) h =
      if (h.x r).getLsbD bit then code.foldl advance (h, some label) else run code h := by
  cases hb : (h.x r).getLsbD bit <;> simp [run, advance, execute, hb]

/-- The exclusive or of SF and OF is bit 7 of `x17` after `signOverflow`. -/
theorem run_signOverflow (h : Host) :
    ∃ h', run signOverflow h = (h', none) ∧ (∀ r ≠ 17, h'.x r = h.x r) ∧
      (h'.x 17).getLsbD 7 = ((h.x 16).getLsbD 7 ^^ (h.x 16).getLsbD 11) := by
  refine ⟨_, rfl, ?_, ?_⟩
  · intro r hr
    simp [hr]
  · simp

theorem run_flagTest (c : Condition) (h : Host) :
    ∃ h', run (flagTest c ++ [bind taken]) h = (h', testEnd (evalCondition c (h.x 16))) ∧
      ∀ r ≠ 17, h'.x r = h.x r := by
  obtain ⟨h₁, hrun, hkept, hxor⟩ := run_signOverflow h
  cases c with
  | overflow | parityEven | equal | below | sign => exact ⟨h, run_tbz h 16 _, fun _ _ => rfl⟩
  | notOverflow | parityOdd | notEqual | aboveOrEqual | notSign =>
    exact ⟨h, run_tbnz h 16 _, fun _ _ => rfl⟩
  | above =>
    refine ⟨h, ?_, fun _ _ => rfl⟩
    rw [flagTest, List.cons_append, run_tbnz_cons, List.singleton_append, run_tbnz]
    simp only [evalCondition, conditionValue, flagsOf]
    cases (h.x 16).getLsbD 0 <;> rfl
  | belowOrEqual =>
    refine ⟨h, ?_, fun _ _ => rfl⟩
    rw [flagTest, List.cons_append, run_tbnz_cons, List.singleton_append, run_tbz]
    simp only [evalCondition, conditionValue, flagsOf]
    cases (h.x 16).getLsbD 0 <;> rfl
  | less =>
    refine ⟨h₁, ?_, hkept⟩
    rw [flagTest, List.append_assoc, run_append hrun, List.singleton_append, run_tbz, hxor]
    rfl
  | greaterOrEqual =>
    refine ⟨h₁, ?_, hkept⟩
    rw [flagTest, List.append_assoc, run_append hrun, List.singleton_append, run_tbnz, hxor]
    rfl
  | lessOrEqual =>
    rw [flagTest, List.cons_append, List.cons_append, run_tbnz_cons]
    cases hz : (h.x 16).getLsbD 6 with
    | true =>
      refine ⟨h, ?_, fun _ _ => rfl⟩
      simp [evalCondition, conditionValue, flagsOf, hz, signOverflow, advance, testEnd, taken]
    | false =>
      refine ⟨h₁, ?_, hkept⟩
      simp only [Bool.false_eq_true, if_false, evalCondition, conditionValue, flagsOf, hz,
        Bool.false_or]
      rw [List.append_assoc, run_append hrun, List.singleton_append, run_tbz, hxor]
  | greater =>
    rw [flagTest, List.cons_append, List.cons_append, run_tbnz_cons]
    cases hz : (h.x 16).getLsbD 6 with
    | true =>
      refine ⟨h, ?_, fun _ _ => rfl⟩
      simp [evalCondition, conditionValue, flagsOf, hz, signOverflow, advance, testEnd, taken,
        notTaken]
    | false =>
      refine ⟨h₁, ?_, hkept⟩
      simp only [Bool.false_eq_true, if_false, evalCondition, conditionValue, flagsOf, hz,
        Bool.false_or]
      rw [List.append_assoc, run_append hrun, List.singleton_append, run_tbnz, hxor]

theorem conditionalMoveTest_end (c : Condition) (h : Host) :
    (run (conditionalMoveTest c) h).2 = testEnd (evalCondition c h.rflags) := by
  obtain ⟨h', hrun, -⟩ := run_flagTest c (h.set 16 h.rflags)
  have hload : (ldrRflags 16).execute h = (h.set 16 h.rflags, none) := rfl
  rw [conditionalMoveTest, run_cons hload, hrun]
  simp

theorem exitTest_end (c : Condition) (h : Host) :
    (run (exitTest c) h).2 = testEnd (evalCondition c h.rflags) :=
  conditionalMoveTest_end c h

theorem evaluateCondition_value (c : Condition) (h : Host) (destination : ValueRegister) :
    (run (evaluateCondition c destination) h).1.x destination.1 =
      if evalCondition c h.rflags then 1 else 0 := by
  have hd16 := destination.ne_scratch (s := 16) (by decide)
  have hd17 := destination.ne_scratch (s := 17) (by decide)
  have hcode : evaluateCondition c destination =
      [movImmediate destination.1 0, ldrRflags 16] ++ ((flagTest c ++ [bind taken]) ++
        [movImmediate destination.1 1, bind notTaken]) := by
    simp [evaluateCondition]
  obtain ⟨h', hrun, hkept⟩ := run_flagTest c ((h.set destination.1 0).set 16 h.rflags)
  simp only [Host.set_x, if_true] at hrun
  have hload : run [movImmediate destination.1 0, ldrRflags 16] h =
      ((h.set destination.1 0).set 16 h.rflags, none) := rfl
  rw [hcode, run_append hload]
  cases hc : evalCondition c h.rflags with
  | true =>
    rw [hc] at hrun
    rw [run_append hrun]
    simp [run, advance, execute]
  | false =>
    rw [hc] at hrun
    rw [run_append_left hrun]
    have hx := hkept destination.1 hd17
    simp only [Host.set_x, hd16, if_false, if_true] at hx
    simp [advance, notTaken, hx]

/-- The host's overflow flag is the one the guest's is computed from. -/
theorem ssubOverflow_eq_signBit (lhs rhs : BitVec 64) :
    lhs.ssubOverflow rhs = Width.signBit .i64 ((lhs ^^^ rhs) &&& (lhs ^^^ (lhs - rhs))) := by
  have hmsb (v : BitVec 64) : v.getLsbD 63 = v.msb := by
    rw [BitVec.msb_eq_getLsbD_last]
  rw [BitVec.ssubOverflow_eq, Width.signBit]
  simp only [Width.bits, BitVec.getLsbD_and, BitVec.getLsbD_xor]
  simp only [hmsb]
  cases lhs.msb <;> cases rhs.msb <;> cases (lhs - rhs).msb <;> rfl

/-- The host's condition flags after a comparison, from the guest's after a subtraction. -/
theorem ofCompare_eq (lhs rhs : BitVec 64) :
    Nzcv.ofCompare lhs rhs =
      let f := subFlagValues .i64 lhs rhs (lhs - rhs)
      ⟨f.sign, f.zero, !f.carry, f.overflow⟩ := by
  have hn : (lhs - rhs).msb = Width.signBit .i64 (lhs - rhs) := BitVec.msb_eq_getLsbD_last _
  simp only [Nzcv.ofCompare, subFlagValues, resultFlags, Width.truncate_i64, hn,
    ssubOverflow_eq_signBit]

/-- The branch to `notTaken` is on the opposite of the guest's condition. -/
theorem deferredBranch_holds {c : Condition} {branch : BranchCondition}
    (hb : deferredBranch c = some branch) (f : FlagValues) :
    branch.holds ⟨f.sign, f.zero, !f.carry, f.overflow⟩ = !conditionValue c f := by
  obtain ⟨carry, parity, auxiliary, zero, sign, overflow⟩ := f
  cases c with
  | parityEven | parityOdd => simp [deferredBranch] at hb
  | _ =>
    cases hb
    cases carry <;> cases zero <;> cases sign <;> cases overflow <;> rfl

theorem deferredExitTest_end {c : Condition} {h : Host} {lhs rhs : ValueRegister}
    {code : List Instruction} (hcode : deferredExitTest c lhs rhs = some code) (rflags : BitVec 64) :
    (run code h).2 = testEnd (evalCondition c
      (updateSubFlags .i64 rflags (h.x lhs.1) (h.x rhs.1) (h.x lhs.1 - h.x rhs.1))) := by
  obtain ⟨branch, hb, rfl⟩ := Option.map_eq_some_iff.mp hcode
  have hholds := deferredBranch_holds hb
    (subFlagValues .i64 (h.x lhs.1) (h.x rhs.1) (h.x lhs.1 - h.x rhs.1))
  rw [← ofCompare_eq] at hholds
  rw [evalCondition, updateSubFlags, flagsOf_replace]
  simp only [run, List.foldl_cons, List.foldl_nil, advance, execute, hholds, testEnd]
  cases conditionValue c (subFlagValues .i64 (h.x lhs.1) (h.x rhs.1) (h.x lhs.1 - h.x rhs.1)) <;> rfl

/-! ## Agreement -/

/-- The operands of an addition's update are those of an addition : the result is the sum
at the width. The 64-bit helper, like the inline code, never recomputes the sum. -/
def IsSum (w : Width) (lhs rhs result : BitVec 64) : Prop :=
  w ≠ .i64 → w.truncate result = w.truncate (lhs + rhs)

/-- The inline flag code leaves the RFLAGS of the helpers, and every test of a condition
gives the value of the condition on RFLAGS. -/
theorem inlineFlags_agree (h : Host) (lhs rhs result : ValueRegister) :
    (∀ w, (run (emitLogicFlags result w) h).1.rflags =
      Helpers.updateLogicFlags w h.rflags (h.x result.1)) ∧
    (run (emitSubFlags64 lhs rhs result) h).1.rflags =
      Helpers.updateSubFlags .i64 h.rflags (h.x lhs.1) (h.x rhs.1) (h.x result.1) ∧
    (run (emitSubFlags8 lhs rhs result) h).1.rflags =
      Helpers.updateSubFlags .i8 h.rflags (h.x lhs.1) (h.x rhs.1) (h.x result.1) ∧
    (run (emitDecFlags64 lhs result) h).1.rflags =
      Helpers.updateDecFlags64 h.rflags (h.x lhs.1) (h.x result.1) ∧
    (∀ w, IsSum w (h.x lhs.1) (h.x rhs.1) (h.x result.1) →
      (run (emitAddFlags w lhs rhs result) h).1.rflags =
        Helpers.updateAddFlags w h.rflags (h.x lhs.1) (h.x rhs.1) (h.x result.1)) ∧
    ∀ c, (run (conditionalMoveTest c) h).2 = testEnd (evalCondition c h.rflags) ∧
      (run (evaluateCondition c result) h).1.x result.1 =
        (if evalCondition c h.rflags then 1 else 0) ∧
      (run (exitTest c) h).2 = testEnd (evalCondition c h.rflags) ∧
      ((c = .parityEven ∨ c = .parityOdd) ∧ deferredExitTest c lhs rhs = none ∨
        ∃ code, deferredExitTest c lhs rhs = some code ∧
          (h.x result.1 = h.x lhs.1 - h.x rhs.1 →
            (run code h).2 =
              testEnd (evalCondition c (run (emitSubFlags64 lhs rhs result) h).1.rflags))) := by
  refine ⟨fun w => ?_, ?_, ?_, ?_, fun w hsum => ?_, fun c => ⟨?_, ?_, ?_, ?_⟩⟩
  · rw [rflags_emitLogicFlags, Helpers.updateLogicFlags_eq]
  · rw [rflags_emitSubFlags64, Helpers.updateSubFlags_eq]
  · rw [rflags_emitSubFlags8, Helpers.updateSubFlags_eq]
  · rw [rflags_emitDecFlags64, Helpers.updateDecFlags64_eq]
  · rw [rflags_emitAddFlags, Helpers.updateAddFlags_eq _ hsum]
  · exact conditionalMoveTest_end c h
  · exact evaluateCondition_value c h result
  · exact exitTest_end c h
  · cases hb : deferredBranch c with
    | none =>
      refine .inl ⟨?_, by simp [deferredExitTest, hb]⟩
      cases c <;> simp_all [deferredBranch]
    | some branch =>
      have hcode : deferredExitTest c lhs rhs =
          some [Instruction.compare lhs.1 rhs.1, bConditional branch notTaken] := by
        simp [deferredExitTest, hb]
      refine .inr ⟨_, hcode, fun hresult => ?_⟩
      rw [rflags_emitSubFlags64, hresult]
      exact deferredExitTest_end hcode h.rflags

/-- `0xFF + 1` in bytes with the carry left above the byte, and in `x11` and `x12` two
numbers with their difference in `x13`. -/
def carryingBytes : Host where
  x r :=
    if r = 8 then 0xFF else if r = 9 then 1 else if r = 10 then 0x100
    else if r = 11 then 1 else if r = 12 then 2 else -1
  nzcv := {}
  rflags := 0
  bytes _ := 0

theorem inlineFlags_agree_carryingBytes :
    (run (emitAddFlags .i8 ⟨8, by decide⟩ ⟨9, by decide⟩ ⟨10, by decide⟩) carryingBytes).1.rflags =
        Helpers.updateAddFlags .i8 0 0xFF 1 0x100 ∧
      ∃ code, deferredExitTest .below ⟨11, by decide⟩ ⟨12, by decide⟩ = some code ∧
        (run code carryingBytes).2 = testEnd (evalCondition .below
          (run (emitSubFlags64 ⟨11, by decide⟩ ⟨12, by decide⟩ ⟨13, by decide⟩)
            carryingBytes).1.rflags) := by
  have hbytes := inlineFlags_agree carryingBytes ⟨8, by decide⟩ ⟨9, by decide⟩ ⟨10, by decide⟩
  have hcompare := inlineFlags_agree carryingBytes ⟨11, by decide⟩ ⟨12, by decide⟩ ⟨13, by decide⟩
  refine ⟨hbytes.2.2.2.2.1 .i8 fun _ => by decide, ?_⟩
  obtain ⟨hparity, -⟩ | ⟨code, hcode, hend⟩ := (hcompare.2.2.2.2.2 .below).2.2.2
  · simp at hparity
  · exact ⟨code, hcode, hend (by decide)⟩

/-- Values that are no addition : `x8` is one, `x9` and `x10` are zero. -/
def notASum : Host where
  x r := if r = 8 then 1 else 0
  nzcv := {}
  rflags := 0
  bytes _ := 0

theorem not_agree_notASum :
    ¬∀ (w : Width) (h : Host) (lhs rhs result : ValueRegister),
      (run (emitAddFlags w lhs rhs result) h).1.rflags =
        Helpers.updateAddFlags w h.rflags (h.x lhs.1) (h.x rhs.1) (h.x result.1) := by
  intro hagree
  have hbyte := hagree .i8 notASum ⟨8, by decide⟩ ⟨9, by decide⟩ ⟨10, by decide⟩
  revert hbyte
  decide

end Rosa.Arm64
