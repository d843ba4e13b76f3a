import Rosa.Dbt.LlvmBackend
import Rosa.Logic.LowBits

/-!
# Register loops in both tiers

The loop function of the optimizing tier against the IR semantics of the baseline tier. One
operation takes both to states that simulate each other (`operation_simulates`), hence so
does one iteration (`iteration_refines`) and a whole run of the loop (`loop_refines`).

The tiers differ in two places. A value of 8 or 16 bits is normalized in one tier and keeps
what its 64-bit computation left above the width in the other, so such a value must not be
used at a larger width (`Block.WidthsAgree`). And the loop function reads the carry that
`INC` and `DEC` keep from the RFLAGS of the loop's entry. The analysis rejects a block
whose last update keeps a carry that the block replaced, but it does not look at the
conditions that are evaluated before : `Block.CarrySettled` asks that none of them needs
such a carry, and `keptCarryLoop` is a block where one does.
-/

namespace Rosa

/-! ## Host values of a width -/

namespace Agree

variable {a b : BitVec 64} {w : Width}

theorem truncate_eq (h : Agree w.bits a b) : w.truncate a = w.truncate b := by
  apply BitVec.eq_of_getLsbD_eq
  intro i _
  rw [Width.getLsbD_truncate, Width.getLsbD_truncate]
  by_cases hi : i < w.bits
  · simp [hi, h i hi]
  · simp [hi]

theorem truncate_left (h : Agree w.bits a b) : Agree w.bits (w.truncate a) b := by
  intro i hi
  rw [Width.getLsbD_truncate, decide_eq_true hi, Bool.true_and, h i hi]

end Agree

namespace Llvm

/-! ## Flags from their operands -/

theorem bitIsSet_twoPow (v : BitVec 64) {k : Nat} (hk : k < 64) :
    bitIsSet v (BitVec.twoPow 64 k) = v.getLsbD k := by
  have hne : BitVec.twoPow 64 k ≠ 0 := by
    intro h
    simpa [hk] using congrArg (·.getLsbD k) h
  rw [bitIsSet, BitVec.and_twoPow]
  cases v.getLsbD k
  · simp
  · simpa using hne

theorem bitIsSet_flagCarry (v : BitVec 64) : bitIsSet v flagCarry = v.getLsbD 0 :=
  bitIsSet_twoPow (k := 0) v (by decide)

theorem bitIsSet_flagAuxiliaryCarry (v : BitVec 64) :
    bitIsSet v flagAuxiliaryCarry = v.getLsbD 4 :=
  bitIsSet_twoPow (k := 4) v (by decide)

theorem bitIsSet_signMask (w : Width) (v : BitVec 64) :
    bitIsSet v (signMask w) = w.signBit v := by
  have h : signMask w = BitVec.twoPow 64 (w.bits - 1) := by cases w <;> rfl
  rw [h, bitIsSet_twoPow _ (by have := w.bits_le; have := w.bits_pos; omega), Width.signBit]

/-- The flags an update of the loop leaves, with the carry that `INC` and `DEC` keep. -/
def updatedFlags (op : Operation) (o : Operands) (carry : Bool) : Option FlagValues :=
  match op.opcode with
  | .updateAddFlags => do some (addFlagValues op.width (← o.lhs) (← o.rhs) (← o.third))
  | .updateSubFlags => do some (subFlagValues op.width (← o.lhs) (← o.rhs) (← o.third))
  | .updateIncFlags => do
    some { incDecFlagValues op.width (signMask op.width - 1) (← o.lhs) (← o.rhs) with
      carry := carry }
  | .updateDecFlags => do
    some { incDecFlagValues op.width (signMask op.width) (← o.lhs) (← o.rhs) with
      carry := carry }
  | .updateLogicFlags => do some (resultFlags op.width (op.width.truncate (← o.lhs)))
  | _ => none

/-- Keeping the carry is the same as setting it again. -/
theorem composeFlags_keepCarry (rflags : BitVec 64) (f : FlagValues) :
    composeFlags (rflags &&& ~~~(arithmeticFlagMask &&& ~~~flagCarry)) f =
      composeFlags (rflags &&& ~~~arithmeticFlagMask)
        { f with carry := (flagsOf rflags).carry || f.carry } := by
  have hkept : rflags &&& ~~~(arithmeticFlagMask &&& ~~~flagCarry) =
      (rflags &&& ~~~arithmeticFlagMask) ||| flagWhen (flagsOf rflags).carry flagCarry := by
    have hm : ~~~(arithmeticFlagMask &&& ~~~flagCarry) = ~~~arithmeticFlagMask ||| flagCarry := by
      decide
    have hc : rflags &&& flagCarry = flagWhen (flagsOf rflags).carry flagCarry := by
      rw [show flagCarry = BitVec.twoPow 64 0 by rfl, BitVec.and_twoPow]
      rfl
    rw [hm, BitVec.and_or_distrib_left, hc]
  have hor (a b : Bool) : flagWhen (a || b) flagCarry =
      flagWhen a flagCarry ||| flagWhen b flagCarry := by
    cases a <;> cases b <;> decide
  rw [hkept]
  simp only [composeFlags, hor]
  ac_nf

/-- The updates of a loop in the IR semantics. -/
theorem flagUpdate_eq {op : Operation} {o : Operands} {rflags : BitVec 64} {f : FlagValues}
    (h : updatedFlags op o (flagsOf rflags).carry = some f) :
    flagUpdate op o rflags = some (composeFlags (rflags &&& ~~~arithmeticFlagMask) f) := by
  have hkeep (w : Width) (boundary a b : BitVec 64) :
      composeFlags (rflags &&& ~~~(arithmeticFlagMask &&& ~~~flagCarry))
        (incDecFlagValues w boundary a b) =
      composeFlags (rflags &&& ~~~arithmeticFlagMask)
        { incDecFlagValues w boundary a b with carry := (flagsOf rflags).carry } := by
    rw [composeFlags_keepCarry, show (incDecFlagValues w boundary a b).carry = false from rfl,
      Bool.or_false]
  simp only [updatedFlags, Option.bind_eq_bind] at h
  split at h
  · next hop =>
    obtain ⟨l, hl, r, hr, t, ht, rfl⟩ := by simpa [Option.bind_eq_some_iff] using h
    simp [flagUpdate, hop, hl, hr, ht, updateAddFlags]
  · next hop =>
    obtain ⟨l, hl, r, hr, t, ht, rfl⟩ := by simpa [Option.bind_eq_some_iff] using h
    simp [flagUpdate, hop, hl, hr, ht, updateSubFlags]
  · next hop =>
    obtain ⟨l, hl, r, hr, rfl⟩ := by simpa [Option.bind_eq_some_iff] using h
    simp [flagUpdate, hop, hl, hr, updateIncFlags, hkeep]
  · next hop =>
    obtain ⟨l, hl, r, hr, rfl⟩ := by simpa [Option.bind_eq_some_iff] using h
    simp [flagUpdate, hop, hl, hr, updateDecFlags, hkeep]
  · next hop =>
    obtain ⟨l, hl, rfl⟩ := by simpa [Option.bind_eq_some_iff] using h
    simp [flagUpdate, hop, hl, updateLogicFlags]
  · cases h

/-- The pending record of an update. -/
def pendingOf (op : Operation) (o : Operands) : Option PendingFlags :=
  match op.opcode with
  | .updateAddFlags | .updateSubFlags => do
    some ⟨op.opcode, op.width, some (← o.lhs), some (← o.rhs), ← o.third⟩
  | .updateIncFlags | .updateDecFlags => do
    some ⟨op.opcode, op.width, some (← o.lhs), none, ← o.rhs⟩
  | .updateLogicFlags => do some ⟨op.opcode, op.width, none, none, ← o.lhs⟩
  | _ => none

/-- The flags of a pending update are those of the update itself, with the carry of the
incoming flags. -/
theorem calculateFlags_pendingOf {op : Operation} {o : Operands} {p : PendingFlags}
    (h : pendingOf op o = some p) (incomingFlags : BitVec 64) :
    calculateFlags incomingFlags p = updatedFlags op o (flagsOf incomingFlags).carry := by
  simp only [pendingOf, Option.bind_eq_bind] at h
  split at h
  · next hop =>
    obtain ⟨l, hl, r, hr, t, ht, rfl⟩ := by simpa [Option.bind_eq_some_iff] using h
    simp [calculateFlags, updatedFlags, hop, hl, hr, ht, normalize_eq, addFlagValues, resultFlags,
      bitIsSet_signMask, bitIsSet_flagAuxiliaryCarry, signBit_sum, parityFold_eq]
  · next hop =>
    obtain ⟨l, hl, r, hr, t, ht, rfl⟩ := by simpa [Option.bind_eq_some_iff] using h
    simp [calculateFlags, updatedFlags, hop, hl, hr, ht, normalize_eq, subFlagValues, resultFlags,
      bitIsSet_signMask, bitIsSet_flagAuxiliaryCarry, parityFold_eq]
  · next hop =>
    obtain ⟨l, hl, r, hr, rfl⟩ := by simpa [Option.bind_eq_some_iff] using h
    simp [calculateFlags, updatedFlags, hop, hl, hr, normalize_eq, incDecFlagValues, resultFlags,
      bitIsSet_signMask, bitIsSet_flagAuxiliaryCarry, bitIsSet_flagCarry, parityFold_eq, flagsOf]
  · next hop =>
    obtain ⟨l, hl, r, hr, rfl⟩ := by simpa [Option.bind_eq_some_iff] using h
    simp [calculateFlags, updatedFlags, hop, hl, hr, normalize_eq, incDecFlagValues, resultFlags,
      bitIsSet_signMask, bitIsSet_flagAuxiliaryCarry, bitIsSet_flagCarry, parityFold_eq, flagsOf]
  · next hop =>
    obtain ⟨l, hl, rfl⟩ := by simpa [Option.bind_eq_some_iff] using h
    simp [calculateFlags, updatedFlags, hop, hl, normalize_eq, resultFlags, bitIsSet_signMask,
      parityFold_eq]
  · cases h

/-- The carry of an update is the one it keeps, or its own. -/
theorem updatedFlags_carry {op : Operation} {o : Operands} {c : Bool} {f : FlagValues}
    (h : updatedFlags op o c = some f) (c' : Bool) :
    updatedFlags op o c' =
      some { f with carry := if isPreservingCarryFlagUpdate op.opcode then c' else f.carry } := by
  simp only [updatedFlags, Option.bind_eq_bind] at h
  split at h
  · next hop =>
    obtain ⟨l, hl, r, hr, t, ht, rfl⟩ := by simpa [Option.bind_eq_some_iff] using h
    simp [updatedFlags, isPreservingCarryFlagUpdate, hop, hl, hr, ht]
  · next hop =>
    obtain ⟨l, hl, r, hr, t, ht, rfl⟩ := by simpa [Option.bind_eq_some_iff] using h
    simp [updatedFlags, isPreservingCarryFlagUpdate, hop, hl, hr, ht]
  · next hop =>
    obtain ⟨l, hl, r, hr, rfl⟩ := by simpa [Option.bind_eq_some_iff] using h
    simp [updatedFlags, isPreservingCarryFlagUpdate, hop, hl, hr]
  · next hop =>
    obtain ⟨l, hl, r, hr, rfl⟩ := by simpa [Option.bind_eq_some_iff] using h
    simp [updatedFlags, isPreservingCarryFlagUpdate, hop, hl, hr]
  · next hop =>
    obtain ⟨l, hl, rfl⟩ := by simpa [Option.bind_eq_some_iff] using h
    simp [updatedFlags, isPreservingCarryFlagUpdate, hop, hl]
  · cases h

/-- The carry an update leaves, if it keeps it. -/
theorem carry_of_updatedFlags {op : Operation} {o : Operands} {c : Bool} {f : FlagValues}
    (h : updatedFlags op o c = some f) (hp : isPreservingCarryFlagUpdate op.opcode = true) :
    f.carry = c := by
  have := updatedFlags_carry h c
  rw [h, hp] at this
  exact congrArg FlagValues.carry (Option.some.inj this)

/-! ## When the tiers agree -/

end Llvm

/-- The low bits on which the tiers agree about a value of the width : the baseline tier
has no 8- and 16-bit operations. -/
def Width.narrowBits : Width → Nat
  | .i8 => 8 | .i16 => 16 | .i32 => 64 | .i64 => 64

namespace Operation

/-- The low bits on which the tiers agree about the result. -/
def definedBits (op : Operation) : Nat :=
  match op.opcode with
  | .constant =>
    if op.width.truncate op.immediate = op.immediate then 64 else op.width.narrowBits
  | .readGuestReg | .add | .sub | .and | .or | .xor => op.width.narrowBits
  | .evaluateCondition | .loadGuest => 64
  | _ => 0

/-- No operand is read at more bits than the tiers agree on, and a conditional move has a
width that the baseline tier has a form for. -/
def readsAgreedBits (known : ValueId → Nat) (op : Operation) : Bool :=
  let within (bits : Nat) (v : Option ValueId) : Bool := v.all fun v => bits ≤ known v
  match op.opcode with
  | .writeGuestReg => within op.width.bits op.lhs
  | .conditionalMoveGuestReg =>
    (op.width == .i32 || op.width == .i64) && within op.width.bits op.lhs
  | .add | .sub | .and | .or | .xor => within op.width.bits op.lhs && within op.width.bits op.rhs
  | .loadGuest => within 64 op.lhs
  | .storeGuest => within 64 op.lhs && within 8 op.rhs
  | .updateAddFlags | .updateSubFlags =>
    within op.width.bits op.lhs && within op.width.bits op.rhs && within op.width.bits op.third
  | .updateIncFlags | .updateDecFlags => within op.width.bits op.lhs && within op.width.bits op.rhs
  | .updateLogicFlags => within op.width.bits op.lhs
  | _ => true

/-- The bits agreed on after the operation. -/
def agreedBits (known : ValueId → Nat) (op : Operation) : ValueId → Nat :=
  match op.result with
  | some r => Function.update known r op.definedBits
  | none => known

end Operation

/-- Every operation reads only bits that the tiers agree on. -/
def widthsAgree : (ValueId → Nat) → List Operation → Bool
  | _, [] => true
  | known, op :: ops => op.readsAgreedBits known && widthsAgree (op.agreedBits known) ops

/-- The condition depends on the carry. -/
def Condition.readsCarry (c : Condition) : Bool :=
  c == .below || c == .aboveOrEqual || c == .above || c == .belowOrEqual

/-- The opcode of the update that is pending after an operation. -/
def Operation.pendingOpcode (pending : Option Opcode) (op : Operation) : Option Opcode :=
  if isReplacingFlagUpdate op.opcode || isPreservingCarryFlagUpdate op.opcode then
    some op.opcode
  else pending

/-- The operation asks for the carry while an update is pending that keeps it. -/
def Operation.readsKeptCarry (pending : Option Opcode) (op : Operation) : Bool :=
  (op.opcode == .conditionalMoveGuestReg || op.opcode == .evaluateCondition) &&
    pending.any isPreservingCarryFlagUpdate && op.condition.any Condition.readsCarry

/-- Some operation asks for the carry while an update is pending that keeps it. -/
def readsKeptCarry : Option Opcode → List Operation → Bool
  | _, [] => false
  | pending, op :: ops => op.readsKeptCarry pending || readsKeptCarry (op.pendingOpcode pending) ops

namespace Block

/-- The block replaces the carry. -/
def replacesCarry (block : Block) : Bool :=
  block.operations.any fun op => isReplacingFlagUpdate op.opcode

/-- The loop function finds every carry it needs in the RFLAGS of its entry : a kept carry
is asked for only if no operation of the block replaces it. -/
def CarrySettled (block : Block) : Prop :=
  block.replacesCarry = true → readsKeptCarry none block.operations = false

instance (block : Block) : Decidable block.CarrySettled := inferInstanceAs (Decidable (_ → _))

/-- No 8- or 16-bit value is used at a larger width. -/
def WidthsAgree (block : Block) : Prop := widthsAgree (fun _ => 0) block.operations = true

instance (block : Block) : Decidable block.WidthsAgree := inferInstanceAs (Decidable (_ = _))

end Block

namespace Llvm

/-! ## Flags in both tiers -/

/-- The pending update stands for the RFLAGS of the baseline tier, except that a kept carry
is the one of the loop's entry. -/
def Represents (incomingFlags : BitVec 64) (p : PendingFlags) (rflags : BitVec 64) : Prop :=
  rflags = composeFlags (incomingFlags &&& ~~~arithmeticFlagMask) (flagsOf rflags) ∧
    calculateFlags incomingFlags p = some
      { flagsOf rflags with
        carry := if isPreservingCarryFlagUpdate p.opcode then (flagsOf incomingFlags).carry
          else (flagsOf rflags).carry }

/-- The RFLAGS of the baseline tier, against the RFLAGS of the loop's entry and the pending
update of the loop function. -/
structure FlagsSimulate (incomingFlags : BitVec 64) (replaces : Bool)
    (pending : Option PendingFlags) (rflags : BitVec 64) : Prop where
  kept : (rflags &&& ~~~arithmeticFlagMask) ||| flagReservedOne =
    (incomingFlags &&& ~~~arithmeticFlagMask) ||| flagReservedOne
  carry : replaces = false → (flagsOf rflags).carry = (flagsOf incomingFlags).carry
  pending : ∀ p, pending = some p → Represents incomingFlags p rflags

namespace FlagsSimulate

variable {incomingFlags rflags : BitVec 64} {replaces : Bool} {pending : Option PendingFlags}

theorem entry (incomingFlags : BitVec 64) (replaces : Bool) :
    FlagsSimulate incomingFlags replaces none incomingFlags :=
  ⟨rfl, fun _ => rfl, fun _ h => by cases h⟩

/-- The next iteration starts with no update pending. -/
theorem forget (h : FlagsSimulate incomingFlags replaces pending rflags) :
    FlagsSimulate incomingFlags replaces none rflags :=
  ⟨h.kept, h.carry, fun _ h => by cases h⟩

/-- The flags of the pending update, when its carry is the right one. -/
theorem calculateFlags_eq {p : PendingFlags}
    (h : FlagsSimulate incomingFlags replaces (some p) rflags)
    (hp : isPreservingCarryFlagUpdate p.opcode = true → replaces = false) :
    calculateFlags incomingFlags p = some (flagsOf rflags) := by
  obtain ⟨-, hf⟩ := h.pending p rfl
  rw [hf]
  cases hpres : isPreservingCarryFlagUpdate p.opcode with
  | false => simp
  | true => simp [← h.carry (hp hpres)]

/-- The flags the exit block stores, when the carry of the pending update is the right one. -/
theorem materializeFlags_eq {p : PendingFlags}
    (h : FlagsSimulate incomingFlags replaces (some p) rflags)
    (hp : isPreservingCarryFlagUpdate p.opcode = true → replaces = false) :
    materializeFlags incomingFlags p (flagsOf rflags) = rflags := by
  obtain ⟨hr, -⟩ := h.pending p rfl
  unfold materializeFlags
  cases hpres : isPreservingCarryFlagUpdate p.opcode with
  | false => exact hr.symm
  | true =>
    simp only [if_true, composeFlags_keepCarry, ← h.carry (hp hpres), Bool.or_self]
    exact hr.symm

/-- A condition that does not need a kept carry has the same value in both tiers. -/
theorem condition_eq {s : LoopState} {p : PendingFlags} {c : Condition}
    (h : FlagsSimulate incomingFlags replaces s.pending rflags) (hs : s.pending = some p)
    (hc : isPreservingCarryFlagUpdate p.opcode = true → c.readsCarry = true →
      replaces = false) :
    s.condition incomingFlags (some c) = some (evalCondition c rflags) := by
  obtain ⟨-, hf⟩ := h.pending p hs
  simp only [LoopState.condition, hs, Option.bind_eq_bind, Option.bind_some]
  cases hcarry : c.readsCarry with
  | true =>
    have h' : FlagsSimulate incomingFlags replaces (some p) rflags := hs ▸ h
    rw [h'.calculateFlags_eq fun hp => hc hp hcarry]
    rfl
  | false =>
    rw [hf]
    cases c <;> first | rfl | cases hcarry

/-- An update in both tiers. -/
theorem update {op : Operation} {o : Operands} {p : PendingFlags}
    (h : FlagsSimulate incomingFlags replaces pending rflags)
    {f : FlagValues} (hf : updatedFlags op o (flagsOf rflags).carry = some f)
    (hcalc : calculateFlags incomingFlags p = updatedFlags op o (flagsOf incomingFlags).carry)
    (hop : p.opcode = op.opcode)
    (hr : isPreservingCarryFlagUpdate op.opcode = false → replaces = true) :
    FlagsSimulate incomingFlags replaces (some p)
      (composeFlags (rflags &&& ~~~arithmeticFlagMask) f) := by
  have hflags : flagsOf (composeFlags (rflags &&& ~~~arithmeticFlagMask) f) = f :=
    flagsOf_replace rflags f
  have hcompose : composeFlags (rflags &&& ~~~arithmeticFlagMask) f =
      composeFlags (incomingFlags &&& ~~~arithmeticFlagMask) f := by
    simp only [composeFlags, h.kept]
  refine ⟨?_, ?_, ?_⟩
  · rw [hcompose, composeFlags_and_not]
  · intro hrep
    have hp : isPreservingCarryFlagUpdate op.opcode = true := by
      by_contra hp
      simp [hr (by simpa using hp)] at hrep
    rw [hflags, carry_of_updatedFlags hf hp, h.carry hrep]
  · intro q hq
    obtain rfl := Option.some.inj hq
    refine ⟨?_, ?_⟩
    · rw [hflags, hcompose]
    · rw [hcalc, updatedFlags_carry hf, hflags, hop]

end FlagsSimulate

/-! ## One operation in both tiers -/

section Operation

variable {M E : Type}

/-- The state of the loop function against the state of the baseline tier, in a run of the
loop from `g` whose block touches `touched`. -/
structure Simulates (g : GuestState) (touched : Register → Bool) (replaces : Bool)
    (known : ValueId → Nat) (scan : LoopScan) (s : LoopState) (m : Machine M) : Prop where
  regs : s.currentRegisters = m.guest.regs
  values : ∀ v, Agree (known v) (s.values v) (m.values v)
  flags : FlagsSimulate g.rflags replaces s.pending m.guest.rflags
  pending : s.pending.map (·.opcode) = scan.finalFlags.map (·.opcode)
  frame : m.guest = { g with
    regs := m.guest.regs, rflags := m.guest.rflags, rip := m.guest.rip }
  untouched : ∀ r, touched r = false → s.currentRegisters r = g.regs r

namespace Simulates

variable {g : GuestState} {touched : Register → Bool} {replaces : Bool} {known : ValueId → Nat}
  {scan scan' : LoopScan} {s : LoopState} {m : Machine M} {op : Operation}

/-- Both tiers define a value on which they agree. -/
theorem setValue (h : Simulates g touched replaces known scan s m) {r : ValueId}
    {v v' : BitVec 64} (hr : op.result = some r) (hv : Agree op.definedBits v' v)
    (hscan : scan'.finalFlags = scan.finalFlags) :
    Simulates g touched replaces (op.agreedBits known) scan'
      { s with values := Function.update s.values r v' }
      { m with values := Function.update m.values r v } := by
  refine { h with values := ?_, pending := hscan ▸ h.pending }
  intro a
  simp only [Operation.agreedBits, hr, Function.update_apply]
  split
  · exact hv
  · exact h.values a

/-- The bits agreed on after an operation that defines nothing. -/
theorem values_agreedBits (h : Simulates g touched replaces known scan s m)
    (hop : op.definedBits = 0) (v : ValueId) :
    Agree (op.agreedBits known v) (s.values v) (m.values v) := by
  unfold Operation.agreedBits
  cases op.result with
  | none => exact h.values v
  | some r =>
    dsimp only
    rw [Function.update_apply, hop]
    split
    · exact fun i hi => absurd hi (Nat.not_lt_zero i)
    · exact h.values v

/-- Both tiers write the same value to a register the block touches. -/
theorem setRegister (h : Simulates g touched replaces known scan s m) {r : Register}
    {v : BitVec 64} (hop : op.definedBits = 0) (ht : touched r = true)
    (hscan : scan'.finalFlags = scan.finalFlags) :
    Simulates g touched replaces (op.agreedBits known) scan' (s.setRegister r v)
      { m with guest := m.guest.setReg r v } := by
  refine { h with
    regs := ?_, values := h.values_agreedBits hop, pending := hscan ▸ h.pending, frame := ?_,
    untouched := ?_ }
  · simp [LoopState.setRegister, h.regs]
  · have := h.frame
    simp only [GuestState.setReg]
    rw [this]
  · intro q hq
    have hne : q ≠ r := by
      rintro rfl
      simp [ht] at hq
    simp [LoopState.setRegister, hne, h.untouched q hq]

/-- Both tiers update the flags, from operands that give the same flags. -/
theorem setFlags (h : Simulates g touched replaces known scan s m) {p : PendingFlags}
    {o o' : Operands} {f : FlagValues} (hop : op.definedBits = 0)
    (hp : pendingOf op o' = some p) (hopcode : p.opcode = op.opcode)
    (ho : ∀ c, updatedFlags op o' c = updatedFlags op o c)
    (hf : updatedFlags op o (flagsOf m.guest.rflags).carry = some f)
    (hr : isPreservingCarryFlagUpdate op.opcode = false → replaces = true)
    (hscan : scan'.finalFlags = some op) :
    Simulates g touched replaces (op.agreedBits known) scan' { s with pending := some p }
      { m with guest := { m.guest with
        rflags := composeFlags (m.guest.rflags &&& ~~~arithmeticFlagMask) f } } := by
  refine { h with
    values := h.values_agreedBits hop, flags := ?_, pending := ?_, frame := ?_ }
  · exact h.flags.update hf (by rw [calculateFlags_pendingOf hp, ho]) hopcode hr
  · simp [hscan, hopcode]
  · have := h.frame
    rw [this]

/-- The condition of an operation that may ask for it. -/
theorem condition_eq (h : Simulates g touched replaces known scan s m) {c : Condition}
    (hop : op.opcode = .conditionalMoveGuestReg ∨ op.opcode = .evaluateCondition)
    (hcond : op.condition = some c) (hf : scan.finalFlags.isSome = true)
    (hc : replaces = true → op.readsKeptCarry (scan.finalFlags.map (·.opcode)) = false) :
    s.condition g.rflags (some c) = some (evalCondition c m.guest.rflags) := by
  obtain ⟨f, hf⟩ := Option.isSome_iff_exists.mp hf
  have hpending := h.pending
  rw [hf] at hpending hc
  obtain ⟨p, hp, hopcode⟩ := Option.map_eq_some_iff.mp hpending
  refine h.flags.condition_eq hp ?_
  intro hpres hcarry
  by_contra hrep
  have hc := hc (by simpa using hrep)
  rw [hopcode] at hpres
  rcases hop with hop | hop <;>
    simp [Operation.readsKeptCarry, hop, hcond, hcarry, hpres] at hc

end Simulates

/-- A normalized value and the host value of the baseline tier. -/
theorem agree_normalize {w : Width} {a b : BitVec 64} (h : Agree w.bits a b) :
    Agree w.narrowBits (normalize a w) (w.hostResult b) := by
  rw [normalize_eq]
  cases w with
  | i8 | i16 => exact h.truncate_left
  | i32 =>
    rw [Width.hostResult, h.truncate_eq]
    exact .refl _ _
  | i64 =>
    rw [Width.truncate_i64]
    exact h

section Updates

variable {op : Operation} {values values' : ValueId → BitVec 64} {a b c : ValueId}

/-- The flags of an update depend on the bits of its width only. -/
theorem updatedFlags_compare (hop : op.opcode = .updateAddFlags ∨ op.opcode = .updateSubFlags)
    (hl : op.lhs = some a) (hr : op.rhs = some b) (ht : op.third = some c)
    (ha : Agree op.width.bits (values' a) (values a))
    (hb : Agree op.width.bits (values' b) (values b))
    (hc : Agree op.width.bits (values' c) (values c)) (carry : Bool) :
    updatedFlags op (operands values' op) carry = updatedFlags op (operands values op) carry := by
  rcases hop with hop | hop <;>
    simp [updatedFlags, hop, operands, hl, hr, ht, addFlagValues, subFlagValues, ha.truncate_eq,
      hb.truncate_eq, hc.truncate_eq]

theorem updatedFlags_increment (hop : op.opcode = .updateIncFlags ∨ op.opcode = .updateDecFlags)
    (hl : op.lhs = some a) (hr : op.rhs = some b)
    (ha : Agree op.width.bits (values' a) (values a))
    (hb : Agree op.width.bits (values' b) (values b)) (carry : Bool) :
    updatedFlags op (operands values' op) carry = updatedFlags op (operands values op) carry := by
  rcases hop with hop | hop <;>
    simp [updatedFlags, hop, operands, hl, hr, incDecFlagValues, ha.truncate_eq, hb.truncate_eq]

theorem updatedFlags_logic (hop : op.opcode = .updateLogicFlags) (hl : op.lhs = some a)
    (ha : Agree op.width.bits (values' a) (values a)) (carry : Bool) :
    updatedFlags op (operands values' op) carry = updatedFlags op (operands values op) carry := by
  simp [updatedFlags, hop, operands, hl, ha.truncate_eq]

end Updates

/-- A register write in both tiers. -/
theorem writeGuestRegister_eq {w : Width} {old a b : BitVec 64} (h : Agree w.bits a b) :
    writeGuestRegister w old a = w.merge old b := by
  unfold writeGuestRegister
  rw [normalize_eq, h.truncate_eq]
  cases w with
  | i8 | i16 => simp [Width.merge, Width.and_mask]
  | i32 | i64 => simp [Width.merge]

/-- A conditional move in both tiers. -/
theorem conditionalMove_eq {w : Width} (taken : Bool) (old : BitVec 64) {a b : BitVec 64}
    (hw : w = .i32 ∨ w = .i64) (h : Agree w.bits a b) :
    conditionalMove w taken old b = some
      (writeGuestRegister w old (if taken then normalize a w else normalize old w)) := by
  have hn := h.truncate_eq
  rcases hw with rfl | rfl <;> cases taken <;>
    simp_all [conditionalMove, writeGuestRegister, normalize_eq]

/-- Both tiers take the operation, to states that simulate again, and leave memory alone. -/
def BothStep (rt : Runtime M E) (guestBase : BitVec 64) (g : GuestState)
    (touched : Register → Bool) (replaces : Bool) (known : ValueId → Nat) (scan' : LoopScan)
    (op : Operation) (s : LoopState) (m : Machine M) : Prop :=
  ∃ s' m', s.operation g.rflags guestBase op = some s' ∧ step rt op m = .next m' ∧
    Simulates g touched replaces (op.agreedBits known) scan' s' m' ∧
    s'.bytes = s.bytes ∧ m'.memory = m.memory

section BothStep

variable {rt : Runtime M E} {guestBase : BitVec 64} {g : GuestState} {touched : Register → Bool}
  {replaces : Bool} {known : ValueId → Nat} {scan scan' : LoopScan} {s : LoopState}
  {m : Machine M} {op : Operation}

theorem BothStep.value (h : Simulates g touched replaces known scan s m) {r : ValueId}
    (v v' : BitVec 64) (hk : op.opcode.kind = .value) (hres : op.result = some r)
    (hs : s.operation g.rflags guestBase op = s.setValue (some r) v')
    (hm : valueOf op (operands m.values op) m.guest = some v)
    (hv : Agree op.definedBits v' v) (hscan : scan'.finalFlags = scan.finalFlags) :
    BothStep rt guestBase g touched replaces known scan' op s m :=
  ⟨_, _, hs, step_value hk hres hm, h.setValue hres hv hscan, rfl, rfl⟩

theorem BothStep.register (h : Simulates g touched replaces known scan s m) {r : Register}
    {v : BitVec 64} (hk : op.opcode.kind = .guest) (hop : op.definedBits = 0)
    (hs : s.operation g.rflags guestBase op = some (s.setRegister r v))
    (hm : guestUpdate op (operands m.values op) m.guest = some (m.guest.setReg r v))
    (ht : touched r = true) (hscan : scan'.finalFlags = scan.finalFlags) :
    BothStep rt guestBase g touched replaces known scan' op s m :=
  ⟨_, _, hs, step_guest hk hm, h.setRegister hop ht hscan, rfl, rfl⟩

theorem BothStep.flags (h : Simulates g touched replaces known scan s m) {p : PendingFlags}
    {f : FlagValues} (hk : op.opcode.kind = .flags) (hop : op.definedBits = 0)
    (hs : s.operation g.rflags guestBase op = some { s with pending := some p })
    (hp : pendingOf op (operands s.values op) = some p) (hopcode : p.opcode = op.opcode)
    (ho : ∀ c, updatedFlags op (operands s.values op) c = updatedFlags op (operands m.values op) c)
    (hf : updatedFlags op (operands m.values op) (flagsOf m.guest.rflags).carry = some f)
    (hr : isPreservingCarryFlagUpdate op.opcode = false → replaces = true)
    (hscan : scan'.finalFlags = some op) :
    BothStep rt guestBase g touched replaces known scan' op s m :=
  ⟨_, _, hs, step_flags hk (flagUpdate_eq hf), h.setFlags hop hp hopcode ho hf hr hscan, rfl, rfl⟩

theorem BothStep.constant (h : Simulates g touched replaces known scan s m) {r : ValueId}
    (hop : op.opcode = .constant) (hres : op.result = some r)
    (hscan : scan'.finalFlags = scan.finalFlags) :
    BothStep rt guestBase g touched replaces known scan' op s m := by
  refine .value h (op.width.hostResult op.immediate) (op.immediate &&& op.width.mask) (by rw [hop]; rfl) hres (by simp [LoopState.operation, hop, hres]) (by simp [valueOf, hop]) ?_
    hscan
  simp only [Operation.definedBits, hop]
  split
  · next hfits =>
    rw [Width.and_mask, hfits]
    cases hw : op.width with
    | i8 | i16 | i64 => exact .refl _ _
    | i32 =>
      rw [hw] at hfits
      rw [Width.hostResult, hfits]
      exact .refl _ _
  · rw [Width.and_mask, ← normalize_eq]
    exact agree_normalize (.refl _ _)

theorem BothStep.arithmetic (h : Simulates g touched replaces known scan s m) {a b r : ValueId}
    (hop : op.opcode = .add ∨ op.opcode = .sub ∨ op.opcode = .and ∨ op.opcode = .or ∨
      op.opcode = .xor)
    (hl : op.lhs = some a) (hrhs : op.rhs = some b) (hres : op.result = some r)
    (hw : op.readsAgreedBits known = true) (hscan : scan'.finalFlags = scan.finalFlags) :
    BothStep rt guestBase g touched replaces known scan' op s m := by
  have hbits : op.width.bits ≤ known a ∧ op.width.bits ≤ known b := by
    rcases hop with hop | hop | hop | hop | hop <;>
      simpa [Operation.readsAgreedBits, hop, hl, hrhs] using hw
  have ha := (h.values a).mono hbits.1
  have hb := (h.values b).mono hbits.2
  have hdefined : op.definedBits = op.width.narrowBits := by
    rcases hop with hop | hop | hop | hop | hop <;> simp [Operation.definedBits, hop]
  -- The operation itself, on the low bits of its width.
  obtain ⟨f, hs, hm, hagree⟩ : ∃ f : BitVec 64 → BitVec 64 → BitVec 64,
      s.operation g.rflags guestBase op = s.arithmetic op f ∧
      valueOf op (operands m.values op) m.guest =
        some (op.width.hostResult (f (m.values a) (m.values b))) ∧
      Agree op.width.bits (f (s.values a) (s.values b)) (f (m.values a) (m.values b)) := by
    rcases hop with hop | hop | hop | hop | hop
    · exact ⟨(· + ·), by simp [LoopState.operation, hop],
        by simp [valueOf, hop, operands, hl, hrhs], ha.add op.width.bits_le hb⟩
    · exact ⟨(· - ·), by simp [LoopState.operation, hop],
        by simp [valueOf, hop, operands, hl, hrhs], ha.sub op.width.bits_le hb⟩
    · exact ⟨(· &&& ·), by simp [LoopState.operation, hop],
        by simp [valueOf, hop, operands, hl, hrhs], ha.and hb⟩
    · exact ⟨(· ||| ·), by simp [LoopState.operation, hop],
        by simp [valueOf, hop, operands, hl, hrhs], ha.or hb⟩
    · exact ⟨(· ^^^ ·), by simp [LoopState.operation, hop],
        by simp [valueOf, hop, operands, hl, hrhs], ha.xor hb⟩
  refine .value h _ _ ?_ hres (by rw [hs]; simp [LoopState.arithmetic, hl, hrhs, hres]; rfl) hm ?_
    hscan
  · rcases hop with hop | hop | hop | hop | hop <;> simp [hop, Opcode.kind]
  · rw [hdefined]
    exact agree_normalize hagree

end BothStep

/-- An operation without memory access takes both tiers to states that simulate again. -/
theorem operation_simulates (rt : Runtime M E) {g : GuestState} {touched : Register → Bool}
    {replaces : Bool} {known : ValueId → Nat} {scan scan' : LoopScan} {s : LoopState}
    {m : Machine M} {op : Operation} {block : Block} {index : Nat} (guestBase : BitVec 64)
    (h : Simulates g touched replaces known scan s m)
    (ha : LoopScan.Accepts block index scan op scan')
    (ht : ∀ r, scan'.touchedRegisters r = true → touched r = true)
    (hw : op.readsAgreedBits known = true)
    (hc : replaces = true → op.readsKeptCarry (scan.finalFlags.map (·.opcode)) = false)
    (hr : isReplacingFlagUpdate op.opcode = true → replaces = true)
    (hload : op.opcode ≠ .loadGuest) (hstore : op.opcode ≠ .storeGuest)
    (hexit : op.opcode ≠ .exitBlock) :
    BothStep rt guestBase g touched replaces known scan' op s m := by
  cases ha with
  | constant hop hres => exact .constant h hop hres rfl
  | @read r reg hop hreg hres =>
    refine .value h (op.width.hostResult (m.guest.regs reg))
      (normalize (s.currentRegisters reg) op.width) (by rw [hop]; rfl) hres
      (by simp [LoopState.operation, hop, hres, hreg]) (by simp [valueOf, hop, hreg]) ?_ rfl
    simp only [Operation.definedBits, hop, h.regs]
    exact agree_normalize (.refl _ _)
  | @write v reg hop hreg hl =>
    have hv : Agree op.width.bits (s.values v) (m.values v) := by
      refine (h.values v).mono ?_
      simpa [Operation.readsAgreedBits, hop, hl] using hw
    refine .register h (r := reg) (v := op.width.merge (m.guest.regs reg) (m.values v))
      (by rw [hop]; rfl) (by simp [Operation.definedBits, hop]) ?_
      (by simp [guestUpdate, hop, hreg, hl, operands]) (ht reg (by simp [LoopScan.setTouched])) rfl
    simp [LoopState.operation, hop, hreg, hl, h.regs, writeGuestRegister_eq hv]
  | @moveValue v reg c hop hreg hcond hf hl =>
    have hread := hw
    simp only [Operation.readsAgreedBits, hop, hl, Bool.and_eq_true, Bool.or_eq_true, beq_iff_eq,
      Option.all_some, decide_eq_true_eq] at hread
    have hmove := conditionalMove_eq (evalCondition c m.guest.rflags) (m.guest.regs reg)
      hread.1 ((h.values v).mono hread.2)
    refine .register h (r := reg) (by rw [hop]; rfl) (by simp [Operation.definedBits, hop]) ?_
      (by simp [guestUpdate, hop, hreg, hl, hcond, operands, conditionalMoveSource, hmove]; rfl)
      (ht reg (by simp [LoopScan.setTouched])) rfl
    simp [LoopState.operation, hop, hreg, hl, hcond, h.regs, h.condition_eq (.inl hop) hcond hf hc]
  | @moveRegister reg source c hop hreg hcond hf hl hsource =>
    have hread := hw
    simp only [Operation.readsAgreedBits, hop, hl, Bool.and_eq_true, Bool.or_eq_true, beq_iff_eq,
      Option.all_none, and_true] at hread
    have hmove := conditionalMove_eq (evalCondition c m.guest.rflags) (m.guest.regs reg) hread
      (.refl _ (m.guest.regs source))
    refine .register h (r := reg) (by rw [hop]; rfl) (by simp [Operation.definedBits, hop]) ?_
      (by simp [guestUpdate, hop, hreg, hl, hcond, operands, conditionalMoveSource, hsource, hmove]
          rfl)
      (ht reg (by simp [LoopScan.setTouched, Function.update_apply])) rfl
    simp [LoopState.operation, hop, hreg, hl, hcond, h.regs, hsource,
      h.condition_eq (.inl hop) hcond hf hc]
  | arithmetic hop hl hrhs hres => exact .arithmetic h hop hl hrhs hres hw rfl
  | @condition r c hop hcond hf hres =>
    have hcond' := h.condition_eq (.inr hop) hcond hf hc
    exact .value h (if evalCondition c m.guest.rflags then 1 else 0) _ (by rw [hop]; rfl) hres
      (by simp [LoopState.operation, hop, hres, hcond, hcond']) (by simp [valueOf, hop, hcond])
      (.refl _ _) rfl
  | load hop => exact absurd hop hload
  | store hop => exact absurd hop hstore
  | @compare a b t hop hl hrhs hthird =>
    have hbits : op.width.bits ≤ known a ∧ op.width.bits ≤ known b ∧ op.width.bits ≤ known t := by
      rcases hop with hop | hop <;>
        simpa [Operation.readsAgreedBits, hop, hl, hrhs, hthird, and_assoc] using hw
    have ho := updatedFlags_compare hop hl hrhs hthird ((h.values a).mono hbits.1)
      ((h.values b).mono hbits.2.1) ((h.values t).mono hbits.2.2)
    rcases hop with hop | hop
    all_goals
      exact .flags h (p := ⟨op.opcode, op.width, some (s.values a), some (s.values b),
        s.values t⟩) (by rw [hop]; rfl) (by simp [Operation.definedBits, hop])
        (by simp [LoopState.operation, hop, hl, hrhs, hthird, LoopState.setPending])
        (by simp [pendingOf, hop, operands, hl, hrhs, hthird]) rfl ho
        (by simp only [updatedFlags, hop, operands, hl, hrhs, hthird]; rfl)
        (fun _ => hr (by simp [isReplacingFlagUpdate, hop])) rfl
  | @increment a b hop hl hrhs =>
    have hbits : op.width.bits ≤ known a ∧ op.width.bits ≤ known b := by
      rcases hop with hop | hop <;>
        simpa [Operation.readsAgreedBits, hop, hl, hrhs] using hw
    have ho := updatedFlags_increment hop hl hrhs ((h.values a).mono hbits.1)
      ((h.values b).mono hbits.2)
    rcases hop with hop | hop
    all_goals
      exact .flags h (p := ⟨op.opcode, op.width, some (s.values a), none, s.values b⟩)
        (by rw [hop]; rfl) (by simp [Operation.definedBits, hop])
        (by simp [LoopState.operation, hop, hl, hrhs, LoopState.setPending])
        (by simp [pendingOf, hop, operands, hl, hrhs]) rfl ho
        (by simp only [updatedFlags, hop, operands, hl, hrhs]; rfl)
        (fun hp => by simp [isPreservingCarryFlagUpdate, hop] at hp) rfl
  | @logic a hop hl =>
    have hbits : op.width.bits ≤ known a := by
      simpa [Operation.readsAgreedBits, hop, hl] using hw
    exact .flags h (p := ⟨op.opcode, op.width, none, none, s.values a⟩) (by rw [hop]; rfl)
      (by simp [Operation.definedBits, hop])
      (by simp [LoopState.operation, hop, hl, LoopState.setPending])
      (by simp [pendingOf, hop, operands, hl]) rfl
      (updatedFlags_logic hop hl ((h.values a).mono hbits))
      (by simp only [updatedFlags, hop, operands, hl]; rfl)
      (fun _ => hr (by simp [isReplacingFlagUpdate, hop])) rfl
  | exit hop => exact absurd hop hexit

end Operation

/-! ## One iteration in both tiers -/

section Iteration

variable {M E : Type} (rt : Runtime M E) {block : Block} {fin : LoopScan} {exit : Operation}
  {g : GuestState} (guestBase : BitVec 64)

/-- What is kept by every operation before the exit holds at the exit, and both tiers get
there. -/
theorem operations_rule {P : List Operation → LoopScan → LoopState → Machine M → Prop}
    (hstep : ∀ {index op ops scan scan' s m}, P (op :: ops) scan s m →
      LoopScan.Accepts block index scan op scan' → op.opcode ≠ .exitBlock →
      LoopScan.operations block (index + 1) ops scan' = some fin →
      ∃ s' m', s.operation g.rflags guestBase op = some s' ∧ step rt op m = .next m' ∧
        P ops scan' s' m')
    {ops : List Operation} {index : Nat} {scan : LoopScan} {s : LoopState} {m : Machine M}
    (hscan : LoopScan.operations block index ops scan = some fin)
    (hlength : index + ops.length = block.operations.length)
    (hs : scan.exit = none) (hfin : fin.exit = some exit) (h : P ops scan s m) :
    ∃ scan' s' m', LoopState.operations g.rflags guestBase ops s = some s' ∧
      run rt ops m = run rt [exit] m' ∧ P [exit] scan' s' m' ∧
      LoopScan.Accepts block (block.operations.length - 1) scan' exit fin ∧
      exit.opcode = .exitBlock := by
  induction ops generalizing index scan s m with
  | nil =>
    obtain rfl := Option.some.inj hscan
    simp [hs] at hfin
  | cons op ops ih =>
    obtain ⟨scan', ha, hrest⟩ := LoopScan.operations_cons hscan
    by_cases hop : op.opcode = .exitBlock
    · -- The analysis accepts an exit in the last place only.
      cases ha with
      | exit hop' hlast =>
        obtain rfl : ops = [] := by
          simp only [List.length_cons] at hlength
          exact List.length_eq_zero_iff.mp (by omega)
        obtain rfl := Option.some.inj hrest
        obtain rfl : op = exit := Option.some.inj hfin
        refine ⟨scan, s, m, by simp [LoopState.operations, LoopState.operation, hop], rfl, h, ?_,
          hop⟩
        rw [← hlast]
        exact .exit hop' hlast ‹_› ‹_› ‹_› ‹_› ‹_›
      | arithmetic hop' => simp [hop] at hop'
      | compare hop' | increment hop' => simp [hop] at hop'
      | constant hop' | read hop' | write hop' | moveValue hop' | moveRegister hop'
      | condition hop' | load hop' | store hop' | logic hop' => simp [hop] at hop'
    · obtain ⟨s', m', hs', hm', h'⟩ := hstep h ha hop hrest
      obtain ⟨scan₁, s₁, m₁, hs₁, hm₁, h₁⟩ := ih hrest (by simp at hlength; omega)
        (by rw [ha.exit_eq hop, hs]) h'
      exact ⟨scan₁, s₁, m₁, by simp [LoopState.operations, hs', hs₁], by rw [run_next hm', hm₁],
        h₁⟩

/-- Both tiers stand before the operations `ops` of a block on which they agree. -/
structure Body (g : GuestState) (touched : Register → Bool) (replaces : Bool)
    (known : ValueId → Nat) (ops : List Operation) (scan : LoopScan) (s : LoopState)
    (m : Machine M) : Prop where
  simulates : Simulates g touched replaces known scan s m
  widths : widthsAgree known ops = true
  carry : replaces = true → readsKeptCarry (scan.finalFlags.map (·.opcode)) ops = false
  replacing : ∀ op ∈ ops, isReplacingFlagUpdate op.opcode = true → replaces = true

namespace Body

variable {touched : Register → Bool} {replaces : Bool} {known : ValueId → Nat} {op : Operation}
  {ops : List Operation} {scan scan' : LoopScan} {s s' : LoopState} {m m' : Machine M}
  {index : Nat}

theorem tail (h : Body g touched replaces known (op :: ops) scan s m)
    (ha : LoopScan.Accepts block index scan op scan')
    (h' : Simulates g touched replaces (op.agreedBits known) scan' s' m') :
    Body g touched replaces (op.agreedBits known) ops scan' s' m' := by
  refine ⟨h', ?_, ?_, fun p hp => h.replacing p (List.mem_cons_of_mem _ hp)⟩
  · have := h.widths
    simp only [widthsAgree, Bool.and_eq_true] at this
    exact this.2
  · intro hr
    have := h.carry hr
    simp only [readsKeptCarry, Bool.or_eq_false_iff] at this
    have hpending : scan'.finalFlags.map (·.opcode) =
        op.pendingOpcode (scan.finalFlags.map (·.opcode)) := by
      rw [ha.finalFlags_eq, Operation.pendingOpcode, ← LoopScan.isFlagUpdate]
      split <;> rfl
    rw [hpending]
    exact this.2

/-- An operation without memory access. -/
theorem step (h : Body g touched replaces known (op :: ops) scan s m)
    (ha : LoopScan.Accepts block index scan op scan')
    (ht : ∀ r, scan'.touchedRegisters r = true → touched r = true)
    (haccess : LoopScan.isAccess op = false) (hexit : op.opcode ≠ .exitBlock) :
    ∃ s' m', s.operation g.rflags guestBase op = some s' ∧ step rt op m = .next m' ∧
      Body g touched replaces (op.agreedBits known) ops scan' s' m' ∧
      s'.bytes = s.bytes ∧ m'.memory = m.memory := by
  have hw := h.widths
  simp only [widthsAgree, Bool.and_eq_true] at hw
  have hc : replaces = true → op.readsKeptCarry (scan.finalFlags.map (·.opcode)) = false := by
    intro hr
    have := h.carry hr
    simp only [readsKeptCarry, Bool.or_eq_false_iff] at this
    exact this.1
  simp only [LoopScan.isAccess, Bool.or_eq_false_iff, beq_eq_false_iff_ne] at haccess
  obtain ⟨s', m', hs, hm, h', hbytes, hmemory⟩ := operation_simulates rt guestBase h.simulates ha
    ht hw.1 hc (h.replacing op List.mem_cons_self) haccess.1 haccess.2 hexit
  exact ⟨s', m', hs, hm, h.tail ha h', hbytes, hmemory⟩

/-- The exit : the flags of the loop function are those of the baseline tier. -/
theorem atExit (h : Body g touched replaces known [exit] scan s m)
    (ha : LoopScan.Accepts block index scan exit fin) (hop : exit.opcode = .exitBlock)
    (hflags : scan.finalFlags.isSome = true)
    (hkeep : ∀ f, scan.finalFlags = some f → isPreservingCarryFlagUpdate f.opcode = true →
      replaces = false) :
    ∃ p c target fallthrough, s.pending = some p ∧
      calculateFlags g.rflags p = some (flagsOf m.guest.rflags) ∧
      materializeFlags g.rflags p (flagsOf m.guest.rflags) = m.guest.rflags ∧
      exit.condition = some c ∧ exit.target = some target ∧
      exit.fallthrough = some fallthrough ∧
      ((target == block.start) ≠ (fallthrough == block.start)) ∧
      fin.selfEdgeWhenConditionTrue = (target == block.start) ∧
      run rt [exit] m = .exit .conditional
        { m.guest with
          rip := if evalCondition c m.guest.rflags then target else fallthrough } m.memory := by
  obtain ⟨f, hf⟩ := Option.isSome_iff_exists.mp hflags
  have hpending := h.simulates.pending
  rw [hf] at hpending
  obtain ⟨p, hp, hopcode⟩ := Option.map_eq_some_iff.mp hpending
  have hflagsim : FlagsSimulate g.rflags replaces (some p) m.guest.rflags :=
    hp ▸ h.simulates.flags
  have hcarry : isPreservingCarryFlagUpdate p.opcode = true → replaces = false :=
    fun hpres => hkeep f hf (by rw [← hpres]; exact congrArg _ hopcode.symm)
  cases ha with
  | @exit c target fallthrough _ hlast hkind hc ht hfall hself =>
    refine ⟨p, c, target, fallthrough, hp, hflagsim.calculateFlags_eq hcarry,
      hflagsim.materializeFlags_eq hcarry, hc, ht, hfall, hself, rfl, ?_⟩
    rw [run_done (step_exit (by rw [hop]; rfl) (by simp [exitUpdate, hkind, hc, ht, hfall]; rfl)),
      hkind]
  | arithmetic hop' | compare hop' | increment hop' | constant hop' | read hop' | write hop'
  | moveValue hop' | moveRegister hop' | condition hop' | load hop' | store hop' | logic hop' =>
    simp [hop] at hop'

end Body

/-- Both tiers stand at the start of an iteration, in a run of the loop from `g`. -/
structure Entry (g : GuestState) (touched : Register → Bool) (replaces : Bool)
    (registers : Register → BitVec 64) (h : GuestState) : Prop where
  regs : registers = h.regs
  flags : FlagsSimulate g.rflags replaces none h.rflags
  frame : h = { g with regs := h.regs, rflags := h.rflags, rip := h.rip }
  untouched : ∀ r, touched r = false → registers r = g.regs r

theorem Entry.initial (g : GuestState) (touched : Register → Bool) (replaces : Bool) :
    Entry g touched replaces g.regs g :=
  ⟨rfl, .entry _ _, rfl, fun _ _ => rfl⟩

/-- The body starts in states that simulate. -/
theorem Entry.body {touched : Register → Bool} {registers : Register → BitVec 64}
    {h : GuestState} {block : Block} (he : Entry g touched block.replacesCarry registers h)
    (hw : block.WidthsAgree) (hc : block.CarrySettled) (bytes : HostVector Byte) (memory : M) :
    Body g touched block.replacesCarry (fun _ => 0) block.operations {}
      ⟨fun _ => 0, registers, none, bytes⟩ ⟨fun _ => 0, h, memory⟩ := by
  refine ⟨⟨he.regs, fun _ => .refl _ _, he.flags, rfl, he.frame, he.untouched⟩, hw, hc, ?_⟩
  intro op hop hr
  exact List.any_eq_true.mpr ⟨op, hop, hr⟩

/-- The end of an iteration of the loop function, against the exit of the baseline tier. -/
structure Exit (block : Block) (analysis : LoopAnalysis) (g : GuestState) (it : Iteration)
    (h : GuestState) : Prop where
  entry : Entry g analysis.touchedRegisters block.replacesCarry it.registers h
  state : exitState analysis g it = some h
  selfEdge : it.continueLoop analysis = true ↔ h.rip = block.start

/-- Of the two successors exactly one is the block itself. -/
theorem continue_iff (condition : Bool) {target fallthrough start : GuestAddress}
    (hself : (target == start) ≠ (fallthrough == start)) :
    (if target == start then condition else !condition) = true ↔
      (if condition then target else fallthrough) = start := by
  cases htarget : target == start <;> cases hfall : fallthrough == start <;>
    cases condition <;> simp_all

/-- From the exit operation to the end of the iteration. -/
theorem Body.exits {analysis : LoopAnalysis} {known : ValueId → Nat} {scan : LoopScan}
    {s : LoopState} {m : Machine M} {index : Nat} {registers : Register → BitVec 64}
    {bytes : HostVector Byte}
    (h : Body g analysis.touchedRegisters block.replacesCarry known [analysis.exit] scan s m)
    (hd : analysis.Describes block fin) (ha : LoopScan.Accepts block index scan analysis.exit fin)
    (hop : analysis.exit.opcode = .exitBlock)
    (hs : LoopState.operations g.rflags guestBase block.operations
      ⟨fun _ => 0, registers, none, bytes⟩ = some s) :
    ∃ it h', iteration block analysis g.rflags guestBase registers bytes = some it ∧
      run rt [analysis.exit] m = .exit .conditional h' m.memory ∧
      Exit block analysis g it h' ∧ it.bytes = s.bytes := by
  have hfinal : scan.finalFlags = some analysis.finalFlags := by
    have := ha.finalFlags_eq
    rw [hd.finalFlags, hop] at this
    exact this.symm
  have hkeep : ∀ f, scan.finalFlags = some f → isPreservingCarryFlagUpdate f.opcode = true →
      block.replacesCarry = false := by
    intro f hf hp
    obtain rfl : analysis.finalFlags = f := Option.some.inj (hfinal ▸ hf)
    exact List.any_eq_false.mpr fun op hop => by simpa using hd.carry hp op hop
  obtain ⟨p, c, target, fallthrough, hp, hcalc, hmat, hc, ht, hf, hself, hedge, hrun⟩ :=
    h.atExit rt ha hop (by simp [hfinal]) hkeep
  refine ⟨⟨s.currentRegisters, s.bytes, p, flagsOf m.guest.rflags,
    evalCondition c m.guest.rflags⟩, _, ?_, hrun, ?_, rfl⟩
  · simp only [iteration, hs, hp, hcalc, hc, Option.bind_eq_bind, Option.bind_some]
    rfl
  have hframe := h.simulates.frame
  refine ⟨⟨h.simulates.regs, h.simulates.flags.forget, ?_, h.simulates.untouched⟩, ?_, ?_⟩
  · rw [hframe]
  · have hregs : (fun r => if analysis.touchedRegisters r then s.currentRegisters r else g.regs r) =
        m.guest.regs := by
      funext r
      rw [← h.simulates.regs]
      split
      · rfl
      · next hr => exact (h.simulates.untouched r (by simpa using hr)).symm
    simp only [exitState, ht, hf, Option.bind_eq_bind, Option.bind_some, hregs, hmat]
    rw [hframe]
  · rw [Iteration.continueLoop, hd.selfEdge, hedge]
    exact continue_iff _ hself

/-- One iteration of a register loop. -/
theorem iteration_refines {analysis : LoopAnalysis} (hd : analysis.Describes block fin)
    (hw : block.WidthsAgree) (hc : block.CarrySettled) (hm : analysis.memory = none)
    {registers : Register → BitVec 64} {h : GuestState}
    (he : Entry g analysis.touchedRegisters block.replacesCarry registers h)
    (bytes : HostVector Byte) (memory : M) :
    ∃ it h', iteration block analysis g.rflags guestBase registers bytes = some it ∧
      runBlock rt block h memory = .exit .conditional h' memory ∧
      Exit block analysis g it h' ∧ it.bytes = bytes := by
  have haccess : ∀ op ∈ block.operations, LoopScan.isAccess op = false := by
    have hops : fin.memoryOperations = [] := by
      have := hd.memory
      by_contra hne
      simp [hne, hm] at this
    rw [LoopScan.operations_memoryOperations_eq hd.scanned] at hops
    simpa using hops
  let P (ops : List Operation) (scan : LoopScan) (s : LoopState) (m : Machine M) : Prop :=
    ∃ known, Body g analysis.touchedRegisters block.replacesCarry known ops scan s m ∧
      (∀ op ∈ ops, LoopScan.isAccess op = false) ∧ s.bytes = bytes ∧ m.memory = memory
  obtain ⟨scan, s, m, hs, hrun, ⟨known, hbody, -, hbytes, hmemory⟩, ha, hop⟩ :=
    operations_rule (P := P) (g := g) rt guestBase
      (by
        rintro index op ops scan scan' s m ⟨known, hbody, hall, hbytes, hmemory⟩ ha hop hrest
        obtain ⟨s', m', hs, hm, hbody', hb, hmem⟩ := hbody.step rt guestBase ha
          (fun r hr => by rw [hd.touched]; exact LoopScan.operations_touched_mono hrest hr)
          (hall op List.mem_cons_self) hop
        exact ⟨s', m', hs, hm, _, hbody', fun p hp => hall p (List.mem_cons_of_mem _ hp),
          hb.trans hbytes, hmem.trans hmemory⟩)
      hd.scanned (by simp) rfl hd.exit ⟨_, he.body hw hc bytes memory, haccess, rfl, rfl⟩
  obtain ⟨it, h', hit, hexit, hend, hb⟩ := hbody.exits rt guestBase hd ha hop hs
  exact ⟨it, h', hit, by rw [runBlock, hrun, hexit, hmemory], hend, hb.trans hbytes⟩

/-- A whole run of a register loop : the last iteration of the loop function ends where the
baseline tier ends, after as many executions. -/
theorem loop_refines {analysis : LoopAnalysis} (hd : analysis.Describes block fin)
    (hw : block.WidthsAgree) (hc : block.CarrySettled) (hm : analysis.memory = none)
    (bytes : HostVector Byte) (memory : M) (n : Nat) :
    ∀ {registers : Register → BitVec 64} {h : GuestState},
      Entry g analysis.touchedRegisters block.replacesCarry registers h →
      ∃ it h' next, loop block analysis g.rflags guestBase n registers bytes = some (it, next) ∧
        runRepeated rt block n h memory = (.exit .conditional h' memory, n + 1 - next) ∧
        next ≤ n ∧ Exit block analysis g it h' ∧ it.bytes = bytes := by
  induction n with
  | zero =>
    intro registers h he
    obtain ⟨it, h', hit, hrun, hend, hb⟩ :=
      iteration_refines rt guestBase hd hw hc hm he bytes memory
    exact ⟨it, h', 0, by simp [loop, hit], by simp [runRepeated, hrun], le_rfl, hend, hb⟩
  | succ n ih =>
    intro registers h he
    obtain ⟨it, h', hit, hrun, hend, hb⟩ :=
      iteration_refines rt guestBase hd hw hc hm he bytes memory
    by_cases hself : h'.rip = block.start
    · obtain ⟨it₂, h₂, next, hloop, hrep, hle, hend₂, hb₂⟩ := ih hend.entry
      refine ⟨it₂, h₂, next, ?_, ?_, by omega, hend₂, hb₂⟩
      · simp only [loop, hit, Option.bind_eq_bind, Option.bind_some, hend.selfEdge.mpr hself,
          if_true, hb, hloop]
      · simp only [runRepeated, hrun, selfEdge, hself, true_or, and_self, if_true, hrep]
        rw [show n + 1 + 1 - next = n + 1 - next + 1 by omega]
    · have hstop : it.continueLoop analysis = false := by
        simpa using fun hcontinue => hself (hend.selfEdge.mp hcontinue)
      refine ⟨it, h', n + 1, ?_, ?_, le_rfl, hend, hb⟩
      · simp [loop, hit, hstop]
      · simp [runRepeated, hrun, selfEdge, hself]

end Iteration

end Llvm

/-! ## The tiers agree on register loops -/

/-- The loop function ends in the state that the baseline tier reaches by repeating the
block while it takes its self edge, after the same number of executions. -/
def TiersAgree {M E : Type} (rt : Runtime M E) (block : Block) (analysis : LoopAnalysis)
    (g : GuestState) (memory : M) (maximumExecutions : BitVec 64) : Prop :=
  ∀ (bytes : HostVector Byte) (guestBase : BitVec 64), ∃ g' count,
    runRepeated rt block (maximumExecutions.toNat - 1) g memory =
      (.exit .conditional g' memory, count) ∧
    Llvm.buildLoop block analysis g maximumExecutions bytes guestBase =
      some (g', bytes, BitVec.ofNat 64 count)

/-- On every block that the analysis takes without a memory plan the tiers agree, if no
8- or 16-bit value is used at a larger width and every carry that is asked for is settled. -/
theorem tiersAgree_of_carrySettled {M E : Type} (rt : Runtime M E) (block : Block)
    (analysis : LoopAnalysis) (ha : analyzeLoop block = some analysis)
    (hm : analysis.memory = none) (hw : block.WidthsAgree) (hc : block.CarrySettled)
    (g : GuestState) (memory : M) (maximumExecutions : BitVec 64) (hn : maximumExecutions ≠ 0) :
    TiersAgree rt block analysis g memory maximumExecutions := by
  intro bytes guestBase
  obtain ⟨fin, hd⟩ := analyzeLoop_describes ha
  have hlt := maximumExecutions.isLt
  have hpos : 0 < maximumExecutions.toNat := by
    by_contra h
    exact hn (BitVec.eq_of_toNat_eq (by simpa using h))
  have hpred : (maximumExecutions - 1).toNat = maximumExecutions.toNat - 1 := by
    rw [BitVec.toNat_sub]
    simp
    omega
  obtain ⟨it, g', next, hloop, hrun, hle, hend, hb⟩ :=
    Llvm.loop_refines rt guestBase hd hw hc hm bytes memory (maximumExecutions.toNat - 1)
      (.initial g _ _)
  have hcount : maximumExecutions - BitVec.ofNat 64 next =
      BitVec.ofNat 64 (maximumExecutions.toNat - 1 + 1 - next) := by
    apply BitVec.eq_of_toNat_eq
    rw [BitVec.toNat_sub]
    simp
    omega
  refine ⟨g', _, hrun, ?_⟩
  simp only [Llvm.buildLoop, hpred, hloop, Option.bind_eq_bind, Option.bind_some, hend.state, hb,
    hcount]

/-- `inc rax; cmp rax, rbx; jne`. -/
def countingLoop : Block where
  start := 0x1000
  operations :=
    [{ opcode := .readGuestReg, result := some 0, guestRegister := some .rax },
     { opcode := .constant, result := some 1, immediate := 1 },
     { opcode := .add, result := some 2, lhs := some 0, rhs := some 1 },
     { opcode := .writeGuestReg, lhs := some 2, guestRegister := some .rax },
     { opcode := .updateIncFlags, lhs := some 0, rhs := some 2 },
     { opcode := .readGuestReg, result := some 3, guestRegister := some .rbx },
     { opcode := .sub, result := some 4, lhs := some 2, rhs := some 3 },
     { opcode := .updateSubFlags, lhs := some 2, rhs := some 3, third := some 4 },
     { opcode := .exitBlock, exitKind := .conditional, condition := some .notEqual,
       target := some 0x1000, fallthrough := some 0x1008 }]
  valueCount := 5

theorem isSome_analyzeLoop_countingLoop : (analyzeLoop countingLoop).isSome = true := by
  decide

/-- A guest state with nothing but the flags set. -/
def GuestState.withFlags (rflags : BitVec 64) : GuestState where
  regs := fun _ => 0
  rip := 0
  rflags := rflags
  xmm := fun _ => (0, 0)
  ymmUpper := fun _ => (0, 0)
  gsBase := 0

theorem tiersAgree_countingLoop :
    countingLoop.Verified ∧
      TiersAgree Runtime.unmapped countingLoop
        ((analyzeLoop countingLoop).get isSome_analyzeLoop_countingLoop) (.withFlags 0) () 3 :=
  ⟨by decide, tiersAgree_of_carrySettled _ _ _ (Option.some_get _).symm (by decide) (by decide)
    (by decide) _ _ _ (by decide)⟩

/-- `xor eax, eax; inc rbx; setb cl; cmp rax, rdx; jne` : the carry that `setb` asks for was
cleared by the `xor` and kept by the `inc`. -/
def keptCarryLoop : Block where
  start := 0x1000
  operations :=
    [{ opcode := .constant, width := .i32, result := some 0 },
     { opcode := .writeGuestReg, width := .i32, lhs := some 0, guestRegister := some .rax },
     { opcode := .updateLogicFlags, width := .i32, lhs := some 0 },
     { opcode := .readGuestReg, result := some 1, guestRegister := some .rbx },
     { opcode := .constant, result := some 2, immediate := 1 },
     { opcode := .add, result := some 3, lhs := some 1, rhs := some 2 },
     { opcode := .writeGuestReg, lhs := some 3, guestRegister := some .rbx },
     { opcode := .updateIncFlags, lhs := some 1, rhs := some 3 },
     { opcode := .evaluateCondition, width := .i8, result := some 4, condition := some .below },
     { opcode := .writeGuestReg, width := .i8, lhs := some 4, guestRegister := some .rcx },
     { opcode := .readGuestReg, result := some 5, guestRegister := some .rax },
     { opcode := .readGuestReg, result := some 6, guestRegister := some .rdx },
     { opcode := .sub, result := some 7, lhs := some 5, rhs := some 6 },
     { opcode := .updateSubFlags, lhs := some 5, rhs := some 6, third := some 7 },
     { opcode := .exitBlock, exitKind := .conditional, condition := some .notEqual,
       target := some 0x1000, fallthrough := some 0x100e }]
  valueCount := 8

theorem isSome_analyzeLoop_keptCarryLoop : (analyzeLoop keptCarryLoop).isSome = true := by
  decide

/-- The guest state at the exit of a block. -/
def Outcome.exitGuest? {M E : Type} : Outcome M E → Option GuestState
  | .exit _ g _ => some g
  | _ => none

/-- Entered with the carry set, the loop function sets `cl` and the baseline tier clears it. -/
theorem not_tiersAgree_keptCarryLoop :
    keptCarryLoop.Verified ∧
      ((analyzeLoop keptCarryLoop).get isSome_analyzeLoop_keptCarryLoop).memory = none ∧
      ¬ TiersAgree Runtime.unmapped keptCarryLoop
        ((analyzeLoop keptCarryLoop).get isSome_analyzeLoop_keptCarryLoop) (.withFlags 1) () 1 := by
  refine ⟨by decide, by decide, ?_⟩
  intro h
  obtain ⟨g, count, hbase, hloop⟩ := h (.empty 0) 0
  have hcl : g.regs .rcx = 0 := by
    have := congrArg (fun o => o.1.exitGuest?.map fun g => g.regs .rcx) hbase
    exact (Option.some.inj this).symm
  have hcl' : g.regs .rcx = 1 := by
    have := congrArg (Option.map fun r => r.1.regs .rcx) hloop
    exact (Option.some.inj this).symm
  rw [hcl] at hcl'
  cases hcl'

end Rosa
