import Rosa.Dbt.LoopAnalysis

/-!
# The loop function of the optimizing tier

What the function that `LlvmEngine::buildLoop` emits computes, one definition for each
part of the builder. The registers the block touches live in phi nodes, and the flags are
never stored inside the loop : the last update is kept as its operands (`PendingFlags`)
and turned into flags where a condition needs them, over the RFLAGS of the loop's entry.

The host bytes behind `memory_bytes` are a vector; an access outside of it is undefined
and the function then has no result. Every value is normalized to the width it is defined
at, unlike in the baseline tier.
-/

namespace Rosa

namespace Llvm

/-! ## Widths and flags -/

/-- `normalize`. -/
def normalize (value : BitVec 64) (w : Width) : BitVec 64 :=
  if w = .i64 then value else value &&& w.mask

theorem normalize_eq (value : BitVec 64) (w : Width) : normalize value w = w.truncate value := by
  unfold normalize
  split
  · next h => rw [h, Width.truncate_i64]
  · exact w.and_mask value

/-- `bitIsSet`. -/
def bitIsSet (value mask : BitVec 64) : Bool := value &&& mask != 0

/-- `PendingFlags` : the last flag update, by its operands. -/
structure PendingFlags where
  opcode : Opcode
  width : Width
  lhs : Option (BitVec 64)
  rhs : Option (BitVec 64)
  result : BitVec 64
  deriving DecidableEq, Repr

/-- `calculateFlags`. Only the carry of `INC` and `DEC` comes from the incoming flags. -/
def calculateFlags (incomingFlags : BitVec 64) (pending : PendingFlags) : Option FlagValues :=
  let result := normalize pending.result pending.width
  let lhs := pending.lhs.map fun v => normalize v pending.width
  let rhs := pending.rhs.map fun v => normalize v pending.width
  let flags : FlagValues :=
    { parity := parityFold result
      zero := result == 0
      sign := bitIsSet result (signMask pending.width) }
  match pending.opcode with
  | .updateAddFlags => do
    let lhs ← lhs
    let rhs ← rhs
    some
      { flags with
        carry := result.ult lhs
        auxiliaryCarry := bitIsSet (lhs ^^^ rhs ^^^ result) flagAuxiliaryCarry
        overflow := bitIsSet (~~~(lhs ^^^ rhs) &&& (lhs ^^^ result)) (signMask pending.width) }
  | .updateSubFlags => do
    let lhs ← lhs
    let rhs ← rhs
    some
      { flags with
        carry := lhs.ult rhs
        auxiliaryCarry := bitIsSet (lhs ^^^ rhs ^^^ result) flagAuxiliaryCarry
        overflow := bitIsSet ((lhs ^^^ rhs) &&& (lhs ^^^ result)) (signMask pending.width) }
  | .updateIncFlags => do
    let lhs ← lhs
    some
      { flags with
        carry := bitIsSet incomingFlags flagCarry
        auxiliaryCarry := bitIsSet (lhs ^^^ 1 ^^^ result) flagAuxiliaryCarry
        overflow := lhs == signMask pending.width - 1 }
  | .updateDecFlags => do
    let lhs ← lhs
    some
      { flags with
        carry := bitIsSet incomingFlags flagCarry
        auxiliaryCarry := bitIsSet (lhs ^^^ 1 ^^^ result) flagAuxiliaryCarry
        overflow := lhs == signMask pending.width }
  | .updateLogicFlags => some flags
  | _ => none

/-- `materializeFlags`. -/
def materializeFlags (incomingFlags : BitVec 64) (pending : PendingFlags) (values : FlagValues) :
    BitVec 64 :=
  let replacedFlags :=
    if isPreservingCarryFlagUpdate pending.opcode then arithmeticFlagMask &&& ~~~flagCarry
    else arithmeticFlagMask
  composeFlags (incomingFlags &&& ~~~replacedFlags) values

/-! ## The body -/

/-- The values of the builder between two operations of the body. -/
structure LoopState where
  values : ValueId → BitVec 64
  currentRegisters : Register → BitVec 64
  pending : Option PendingFlags
  bytes : HostVector Byte

/-- `writeGuestRegister` : the new value of a register. -/
def writeGuestRegister (w : Width) (current source : BitVec 64) : BitVec 64 :=
  let source := normalize source w
  if w = .i64 ∨ w = .i32 then source else (current &&& ~~~w.mask) ||| source

namespace LoopState

/-- A value is defined. -/
def setValue (s : LoopState) (result : Option ValueId) (v : BitVec 64) : Option LoopState :=
  result.map fun r => { s with values := Function.update s.values r v }

/-- A register gets a new value. -/
def setRegister (s : LoopState) (r : Register) (v : BitVec 64) : LoopState :=
  { s with currentRegisters := Function.update s.currentRegisters r v }

/-- `conditionValue` of the flags that are pending. -/
def condition (s : LoopState) (incomingFlags : BitVec 64) (c : Option Condition) :
    Option Bool := do
  conditionValue (← c) (← calculateFlags incomingFlags (← s.pending))

/-- An operation on two values, normalized to its width. -/
def arithmetic (s : LoopState) (op : Operation) (f : BitVec 64 → BitVec 64 → BitVec 64) :
    Option LoopState := do
  s.setValue op.result (normalize (f (s.values (← op.lhs)) (s.values (← op.rhs))) op.width)

/-- An update becomes the pending one. -/
def setPending (s : LoopState) (op : Operation) (lhs rhs : Option ValueId) (result : ValueId) :
    LoopState :=
  { s with
    pending := some
      { opcode := op.opcode
        width := op.width
        lhs := lhs.map s.values
        rhs := rhs.map s.values
        result := s.values result } }

/-- The offset of a guest address in the host bytes, if it lies inside. -/
def offset (s : LoopState) (guestBase address : BitVec 64) : Option Nat :=
  let offset := (address - guestBase).toNat
  if offset < s.bytes.size then some offset else none

/-- The `switch` of `buildLoop` over one operation. -/
def operation (incomingFlags guestBase : BitVec 64) (op : Operation) (s : LoopState) :
    Option LoopState :=
  match op.opcode with
  | .constant => s.setValue op.result (op.immediate &&& op.width.mask)
  | .readGuestReg => do
    s.setValue op.result (normalize (s.currentRegisters (← op.guestRegister)) op.width)
  | .writeGuestReg => do
    let r ← op.guestRegister
    let source := s.values (← op.lhs)
    some (s.setRegister r (writeGuestRegister op.width (s.currentRegisters r) source))
  | .conditionalMoveGuestReg => do
    let taken ← s.condition incomingFlags op.condition
    let r ← op.guestRegister
    let source ← match op.lhs with
      | some v => some (s.values v)
      | none => (Register.ofIndex? op.immediate.toNat).map s.currentRegisters
    let selected :=
      if taken then normalize source op.width else normalize (s.currentRegisters r) op.width
    some (s.setRegister r (writeGuestRegister op.width (s.currentRegisters r) selected))
  | .add => s.arithmetic op (· + ·)
  | .sub => s.arithmetic op (· - ·)
  | .and => s.arithmetic op (· &&& ·)
  | .or => s.arithmetic op (· ||| ·)
  | .xor => s.arithmetic op (· ^^^ ·)
  | .evaluateCondition => do
    s.setValue op.result (if ← s.condition incomingFlags op.condition then 1 else 0)
  | .loadGuest => do
    let offset ← s.offset guestBase (s.values (← op.lhs))
    s.setValue op.result ((s.bytes.get offset).setWidth 64)
  | .storeGuest => do
    let offset ← s.offset guestBase (s.values (← op.lhs))
    let byte := (s.values (← op.rhs)).setWidth 8
    some { s with bytes := ⟨s.bytes.size, Function.update s.bytes.get offset byte⟩ }
  | .updateAddFlags | .updateSubFlags => do
    some (s.setPending op (some (← op.lhs)) (some (← op.rhs)) (← op.third))
  | .updateIncFlags | .updateDecFlags => do
    some (s.setPending op (some (← op.lhs)) none (← op.rhs))
  | .updateLogicFlags => do some (s.setPending op none none (← op.lhs))
  | .exitBlock => some s
  | _ => none

/-- The operations of the body. -/
def operations (incomingFlags guestBase : BitVec 64) : List Operation → LoopState →
    Option LoopState
  | [], s => some s
  | op :: ops, s => do operations incomingFlags guestBase ops (← s.operation incomingFlags guestBase op)

end LoopState

/-! ## The function -/

/-- The values at the end of an iteration. -/
structure Iteration where
  registers : Register → BitVec 64
  bytes : HostVector Byte
  pending : PendingFlags
  flags : FlagValues
  condition : Bool

/-- One iteration, from the phi nodes to the branch. -/
def iteration (block : Block) (analysis : LoopAnalysis) (incomingFlags guestBase : BitVec 64)
    (registers : Register → BitVec 64) (bytes : HostVector Byte) : Option Iteration := do
  let s ← LoopState.operations incomingFlags guestBase block.operations
    ⟨fun _ => 0, registers, none, bytes⟩
  let pending ← s.pending
  let flags ← calculateFlags incomingFlags pending
  let condition ← analysis.exit.condition
  some ⟨s.currentRegisters, s.bytes, pending, flags, conditionValue condition flags⟩

/-- `continueLoop`. -/
def Iteration.continueLoop (it : Iteration) (analysis : LoopAnalysis) : Bool :=
  if analysis.selfEdgeWhenConditionTrue then it.condition else !it.condition

/-- The loop, with `next_remaining` of its first iteration : the last iteration, and
`next_remaining` there. -/
def loop (block : Block) (analysis : LoopAnalysis) (incomingFlags guestBase : BitVec 64) :
    Nat → (Register → BitVec 64) → HostVector Byte → Option (Iteration × Nat)
  | 0, registers, bytes => do
    some (← iteration block analysis incomingFlags guestBase registers bytes, 0)
  | nextRemaining + 1, registers, bytes => do
    let it ← iteration block analysis incomingFlags guestBase registers bytes
    if it.continueLoop analysis then
      loop block analysis incomingFlags guestBase nextRemaining it.registers it.bytes
    else some (it, nextRemaining + 1)

/-- The state the exit block stores. -/
def exitState (analysis : LoopAnalysis) (g : GuestState) (it : Iteration) : Option GuestState := do
  let target ← analysis.exit.target
  let fallthrough ← analysis.exit.fallthrough
  some
    { g with
      regs := fun r => if analysis.touchedRegisters r then it.registers r else g.regs r
      rflags := materializeFlags g.rflags it.pending it.flags
      rip := if it.condition then target else fallthrough }

/-- `buildLoop` : the state, the host bytes and the number of executions that the function
returns. -/
def buildLoop (block : Block) (analysis : LoopAnalysis) (g : GuestState)
    (maximumExecutions : BitVec 64) (bytes : HostVector Byte) (guestBase : BitVec 64) :
    Option (GuestState × HostVector Byte × BitVec 64) := do
  let (it, nextRemaining) ← loop block analysis g.rflags guestBase (maximumExecutions - 1).toNat
    g.regs bytes
  some (← exitState analysis g it, it.bytes, maximumExecutions - BitVec.ofNat 64 nextRemaining)

end Llvm

end Rosa
