import Rosa.IR.Flags

/-!
# What a block does

The meaning the baseline backend (`arm64/Backend.cpp`) gives each operation. A value is
a 64-bit host register. The backend has 32-bit forms for 32-bit operations only : the
result of an 8- or 16-bit operation keeps whatever its 64-bit computation leaves above
the width, and an 8- or 16-bit register read is a read of the whole register.

Guest memory and the C++ helpers the backend calls for the remaining opcodes (packed
arithmetic, divisions, read-modify-write of memory, string operations) are a `Runtime`.
A helper sees the operation's fields, the values of its operands and the guest state,
and never the numbers of the values. Results that hold for every `Runtime` hold for the
one in `dbt/RuntimeHelpers.cpp`.

An operation whose fields the backend dereferences without their being there, or whose
shift the assembler refuses, has no meaning : the run is `stuck`.
-/

namespace Rosa

/-! ## State -/

/-- `XmmValue` : the low and the high half. -/
abbrev XmmValue := BitVec 64 × BitVec 64

/-- `x86::X86State`. An XMM register is its low and its high half. -/
structure GuestState where
  regs : Register → BitVec 64
  rip : BitVec 64
  rflags : BitVec 64
  xmm : XmmRegister → BitVec 64 × BitVec 64
  ymmUpper : XmmRegister → BitVec 64 × BitVec 64
  gsBase : BitVec 64

namespace GuestState

/-- The state with one register replaced. -/
def setReg (g : GuestState) (r : Register) (v : BitVec 64) : GuestState :=
  { g with regs := Function.update g.regs r v }

/-- The state with one XMM register replaced. -/
def setXmm (g : GuestState) (r : XmmRegister) (value : XmmValue) : GuestState :=
  { g with xmm := Function.update g.xmm r value }

@[simp] theorem setReg_rflags (g : GuestState) (r : Register) (v : BitVec 64) :
    (g.setReg r v).rflags = g.rflags := rfl

@[simp] theorem setReg_regs (g : GuestState) (r : Register) (v : BitVec 64) :
    (g.setReg r v).regs = Function.update g.regs r v := rfl

end GuestState

/-- The values of an operation's operands. -/
structure Operands where
  lhs : Option (BitVec 64)
  rhs : Option (BitVec 64)
  third : Option (BitVec 64)
  deriving DecidableEq

/-- The operands of `op`, with the values of their names. -/
def operands (values : ValueId → BitVec 64) (op : Operation) : Operands :=
  ⟨op.lhs.map values, op.rhs.map values, op.third.map values⟩

/-- Guest memory `M` with its faults `E`, and the helpers behind the opcodes that are
not emitted inline. A failing access may still have changed the memory's caches. -/
structure Runtime (M E : Type) where
  load : (w : Width) → GuestAddress → M → Except E (BitVec w.bits) × M
  store : (w : Width) → GuestAddress → BitVec w.bits → M → Except E Unit × M
  helper : Operation → Operands → GuestState → M → Except E Unit × GuestState × M

/-- No memory is mapped and every helper fails. -/
def Runtime.unmapped : Runtime Unit Unit where
  load _ _ _ := (.error (), ())
  store _ _ _ _ := (.error (), ())
  helper _ _ g _ := (.error (), g, ())

/-- The state between two operations. -/
structure Machine (M : Type) where
  values : ValueId → BitVec 64
  guest : GuestState
  memory : M

/-- How a run of a block ends. A fault names the operation by its fields and the values
of its operands. -/
inductive Outcome (M E : Type)
  | exit (kind : ExitKind) (guest : GuestState) (memory : M)
  | fault (operation : Operation) (operands : Operands) (error : E) (guest : GuestState)
      (memory : M)
  | stuck

/-- The effect of one operation : the next state, or the end of the block. -/
inductive Effect (M E : Type)
  | next (machine : Machine M)
  | done (outcome : Outcome M E)

/-! ## Opcodes by what they change -/

/-- What an opcode changes. -/
inductive OpcodeKind
  | value | flags | guest | load | store | exit | helper
  deriving DecidableEq, Repr

/-- The kind of an opcode. -/
def Opcode.kind : Opcode → OpcodeKind
  | .constant | .readGuestReg | .readGuestGsBase | .readGuestXmmLane | .readGuestYmmUpperLane
  | .add | .sub | .shiftLeft | .shiftRightLogical | .shiftRightArithmetic | .multiplyLow
  | .multiplyHighUnsigned | .multiplyHighSigned | .shiftRightDouble | .and | .or | .xor
  | .signExtend32 | .byteSwap | .evaluateCondition => .value
  | .updateAddFlags | .updateAdcFlags | .updateSbbFlags | .updateIncFlags | .updateDecFlags
  | .updateSubFlags | .updateLogicFlags | .updateShiftLeftFlags | .updateShiftRightFlags
  | .updateShiftRightArithmeticFlags | .updateRotateLeftFlags | .updateRotateRightFlags
  | .updateMultiplyFlags | .updateSignedMultiplyFlags | .updateShiftRightDoubleFlags
  | .updateBitTestFlags => .flags
  | .writeGuestReg | .conditionalMoveGuestReg | .writeGuestXmmLane | .writeGuestYmmUpperLane
  | .writeGuestXmmByte | .writeGuestXmmDword | .writeDirectionFlag | .loadFence | .storeFence =>
    .guest
  | .loadGuest => .load
  | .storeGuest => .store
  | .exitBlock => .exit
  | _ => .helper

/-! ## Values -/

/-- The host result of an operation of the width : the 32-bit forms zero extend, all
others are 64-bit. -/
def Width.hostResult (w : Width) (v : BitVec 64) : BitVec 64 :=
  match w with
  | .i32 => Width.truncate .i32 v
  | _ => v

/-- An immediate shift count : one byte, refused by the assembler from `bound` on. -/
def immediateCount (immediate : BitVec 64) (bound : Nat) : Option Nat :=
  let count := immediate.toNat % 256
  if count < bound then some count else none

/-- A shift by a register count modulo `bound`, or by an immediate count below it. -/
def shiftAmount (op : Operation) (o : Operands) (bound : Nat) : Option Nat :=
  match o.rhs with
  | some count => some (count.toNat % bound)
  | none => immediateCount op.immediate bound

/-- The bytes of a 32-bit value in reverse order. -/
def reverseBytes32 (v : BitVec 64) : BitVec 64 :=
  let byte (k : Nat) : BitVec 8 := (v >>> (8 * k)).setWidth 8
  (byte 0 ++ byte 1 ++ byte 2 ++ byte 3).setWidth 64

/-- The bytes of a 64-bit value in reverse order. -/
def reverseBytes64 (v : BitVec 64) : BitVec 64 :=
  let byte (k : Nat) : BitVec 8 := (v >>> (8 * k)).setWidth 8
  (byte 0 ++ byte 1 ++ byte 2 ++ byte 3 ++ byte 4 ++ byte 5 ++ byte 6 ++ byte 7).setWidth 64

/-- The lane of a register pair : the high half if the immediate is not zero. -/
def laneOf (pair : BitVec 64 × BitVec 64) (high : Bool) : BitVec 64 :=
  if high then pair.2 else pair.1

/-- The pair with one half replaced. -/
def setLane (pair : BitVec 64 × BitVec 64) (high : Bool) (v : BitVec 64) :
    BitVec 64 × BitVec 64 :=
  if high then (pair.1, v) else (v, pair.2)

/-- The value an operation of kind `value` computes. -/
def valueOf (op : Operation) (o : Operands) (g : GuestState) : Option (BitVec 64) :=
  match op.opcode with
  | .constant => some (op.width.hostResult op.immediate)
  | .readGuestReg => op.guestRegister.map fun r => op.width.hostResult (g.regs r)
  | .readGuestGsBase => some g.gsBase
  | .readGuestXmmLane => op.guestXmmRegister.map fun r => laneOf (g.xmm r) (op.immediate != 0)
  | .readGuestYmmUpperLane =>
    op.guestXmmRegister.map fun r => laneOf (g.ymmUpper r) (op.immediate != 0)
  | .add => do op.width.hostResult ((← o.lhs) + (← o.rhs))
  | .sub => do op.width.hostResult ((← o.lhs) - (← o.rhs))
  | .shiftLeft => do some ((← o.lhs) <<< (← shiftAmount op o 64))
  | .shiftRightLogical => do some ((← o.lhs) >>> (← shiftAmount op o 64))
  | .shiftRightArithmetic =>
    match op.width with
    | .i32 => do some ((((← o.lhs).setWidth 32).sshiftRight (← shiftAmount op o 32)).setWidth 64)
    | _ => do some ((← o.lhs).sshiftRight (← shiftAmount op o 64))
  | .multiplyLow => do some ((← o.lhs) * (← o.rhs))
  | .multiplyHighUnsigned => do
    some ((((← o.lhs).setWidth 128 * (← o.rhs).setWidth 128) >>> 64).setWidth 64)
  | .multiplyHighSigned => do
    some ((((← o.lhs).signExtend 128 * (← o.rhs).signExtend 128) >>> 64).setWidth 64)
  | .shiftRightDouble => do
    some ((((← o.rhs) ++ (← o.lhs)) >>> (← immediateCount op.immediate 64)).setWidth 64)
  | .and => do op.width.hostResult ((← o.lhs) &&& (← o.rhs))
  | .or => do op.width.hostResult ((← o.lhs) ||| (← o.rhs))
  | .xor => do op.width.hostResult ((← o.lhs) ^^^ (← o.rhs))
  | .signExtend32 => do some (((← o.lhs).setWidth 32).signExtend 64)
  | .byteSwap =>
    match op.width with
    | .i32 => o.lhs.map reverseBytes32
    | _ => o.lhs.map reverseBytes64
  | .evaluateCondition =>
    op.condition.map fun c => if evalCondition c g.rflags then 1 else 0
  | _ => none

/-! ## Flags and guest registers -/

/-- The RFLAGS an operation of kind `flags` leaves. The helper for a width is the one
the backend picks : most families have no 16-bit helper and fall through to another. -/
def flagUpdate (op : Operation) (o : Operands) (rflags : BitVec 64) : Option (BitVec 64) :=
  let w := op.width
  let among (widths : List Width) (other : Width) : Width :=
    if widths.contains w then w else other
  let count (operand : Option (BitVec 64)) : BitVec 64 := operand.getD op.immediate
  match op.opcode with
  | .updateAddFlags => do updateAddFlags w rflags (← o.lhs) (← o.rhs) (← o.third)
  | .updateSubFlags => do updateSubFlags w rflags (← o.lhs) (← o.rhs) (← o.third)
  | .updateAdcFlags => do
    updateAdcFlags (among [.i8, .i32] .i64) rflags (← o.lhs) (← o.rhs) (← o.third)
  | .updateSbbFlags => do updateSbbFlags w rflags (← o.lhs) (← o.rhs) (← o.third)
  | .updateIncFlags => do updateIncFlags w rflags (← o.lhs) (← o.rhs)
  | .updateDecFlags => do updateDecFlags w rflags (← o.lhs) (← o.rhs)
  | .updateLogicFlags => do updateLogicFlags w rflags (← o.lhs)
  | .updateShiftLeftFlags => do
    updateShiftLeftFlags (among [.i8, .i32] .i64) rflags (← o.lhs) (← o.rhs) (count o.third)
  | .updateShiftRightFlags => do
    updateShiftRightFlags (among [.i8, .i32] .i64) rflags (← o.lhs) (← o.rhs) (count o.third)
  | .updateShiftRightArithmeticFlags => do
    updateShiftRightArithmeticFlags (among [.i32] .i64) rflags (← o.lhs) (← o.rhs)
      (count o.third)
  | .updateRotateLeftFlags => do
    updateRotateLeftFlags (among [.i16, .i32] .i64) rflags (← o.lhs) (count o.rhs)
  | .updateRotateRightFlags => do
    updateRotateRightFlags (among [.i32] .i64) rflags (← o.lhs) (count o.rhs)
  | .updateMultiplyFlags => do updateMultiplyFlags rflags (← o.lhs)
  | .updateSignedMultiplyFlags => do
    updateSignedMultiplyFlags (among [.i32] .i64) rflags (← o.lhs) (← o.rhs)
  | .updateShiftRightDoubleFlags => do
    updateShiftRightDoubleFlags rflags (← o.lhs) (← o.rhs) op.immediate
  | .updateBitTestFlags => do
    updateBitTestFlags (among [.i64] .i32) rflags (← o.lhs) op.immediate
  | _ => none

/-- A guest register after a write of the width : 8- and 16-bit writes merge, 32-bit
writes zero extend. -/
def Width.merge (w : Width) (old v : BitVec 64) : BitVec 64 :=
  match w with
  | .i64 => v
  | .i32 => Width.truncate .i32 v
  | w => (old &&& ~~~w.mask) ||| (v &&& w.mask)

/-- The register after a conditional move. The 32-bit form clears the upper half even
when the condition is false. -/
def conditionalMove (w : Width) (taken : Bool) (old source : BitVec 64) : Option (BitVec 64) :=
  match w with
  | .i64 => some (if taken then source else old)
  | .i32 => some (Width.truncate .i32 (if taken then source else old))
  | _ => none

/-- The source of a conditional move : its operand, or the register its immediate names. -/
def conditionalMoveSource (op : Operation) (o : Operands) (g : GuestState) : Option (BitVec 64) :=
  match o.lhs with
  | some v => some v
  | none => (Register.ofIndex? op.immediate.toNat).map g.regs

/-- The half of an XMM register after its byte or dword `slot` of the half is replaced. -/
def insertSlot (w : Width) (slot : Nat) (old v : BitVec 64) : BitVec 64 :=
  (old &&& ~~~(w.mask <<< (slot * w.bits))) ||| ((v &&& w.mask) <<< (slot * w.bits))

/-- The guest state after an operation of kind `guest`. -/
def guestUpdate (op : Operation) (o : Operands) (g : GuestState) : Option GuestState :=
  match op.opcode with
  | .writeGuestReg => do
    let r ← op.guestRegister
    some (g.setReg r (op.width.merge (g.regs r) (← o.lhs)))
  | .conditionalMoveGuestReg => do
    let r ← op.guestRegister
    let c ← op.condition
    let source ← conditionalMoveSource op o g
    some (g.setReg r (← conditionalMove op.width (evalCondition c g.rflags) (g.regs r) source))
  | .writeGuestXmmLane => do
    let r ← op.guestXmmRegister
    let v ← o.lhs
    some { g with xmm := Function.update g.xmm r (setLane (g.xmm r) (op.immediate != 0) v) }
  | .writeGuestYmmUpperLane => do
    let r ← op.guestXmmRegister
    let v ← o.lhs
    some { g with
      ymmUpper := Function.update g.ymmUpper r (setLane (g.ymmUpper r) (op.immediate != 0) v) }
  | .writeGuestXmmByte => do
    let r ← op.guestXmmRegister
    let v ← o.lhs
    let lane := op.immediate.toNat % 256
    let high := decide (8 ≤ lane)
    let half := insertSlot .i8 (lane % 8) (laneOf (g.xmm r) high) v
    some { g with xmm := Function.update g.xmm r (setLane (g.xmm r) high half) }
  | .writeGuestXmmDword => do
    let r ← op.guestXmmRegister
    let v ← o.lhs
    let lane := op.immediate.toNat % 256
    let high := decide (2 ≤ lane)
    let half := insertSlot .i32 (lane % 2) (laneOf (g.xmm r) high) v
    some { g with xmm := Function.update g.xmm r (setLane (g.xmm r) high half) }
  | .writeDirectionFlag =>
    some { g with
      rflags := if op.immediate = 0 then g.rflags &&& ~~~flagDirection
        else g.rflags ||| flagDirection }
  | .loadFence | .storeFence => some g
  | _ => none

/-- The guest state at an exit. -/
def exitUpdate (op : Operation) (o : Operands) (g : GuestState) : Option GuestState :=
  match op.exitKind with
  | .return => some { g with rip := op.guestRip }
  | .direct | .call =>
    match o.lhs with
    | some target => some { g with rip := target }
    | none => op.target.map fun target => { g with rip := target }
  | .syscall =>
    op.target.map fun target =>
      { (g.setReg .rcx target).setReg .r11 g.rflags with rip := target }
  | .conditional => do
    let c ← op.condition
    let target ← op.target
    let fallthrough ← op.fallthrough
    some { g with rip := if evalCondition c g.rflags then target else fallthrough }

/-! ## Steps and runs -/

variable {M E : Type}

/-- One operation. -/
def step (rt : Runtime M E) (op : Operation) (m : Machine M) : Effect M E :=
  let o := operands m.values op
  match op.opcode.kind with
  | .value =>
    match op.result, valueOf op o m.guest with
    | some r, some v => .next { m with values := Function.update m.values r v }
    | _, _ => .done .stuck
  | .flags =>
    match flagUpdate op o m.guest.rflags with
    | some f => .next { m with guest := { m.guest with rflags := f } }
    | none => .done .stuck
  | .guest =>
    match guestUpdate op o m.guest with
    | some g => .next { m with guest := g }
    | none => .done .stuck
  | .load =>
    match op.result, o.lhs with
    | some r, some address =>
      match rt.load op.width address m.memory with
      | (.ok v, memory) =>
        .next { m with values := Function.update m.values r (v.setWidth 64), memory := memory }
      | (.error e, memory) => .done (.fault op.payload o e m.guest memory)
    | _, _ => .done .stuck
  | .store =>
    match o.lhs, o.rhs with
    | some address, some v =>
      match rt.store op.width address (v.setWidth _) m.memory with
      | (.ok _, memory) => .next { m with memory := memory }
      | (.error e, memory) => .done (.fault op.payload o e m.guest memory)
    | _, _ => .done .stuck
  | .exit =>
    match exitUpdate op o m.guest with
    | some g => .done (.exit op.exitKind g m.memory)
    | none => .done .stuck
  | .helper =>
    match rt.helper op.payload o m.guest m.memory with
    | (.ok _, g, memory) => .next { m with guest := g, memory := memory }
    | (.error e, g, memory) => .done (.fault op.payload o e g memory)

/-- The operations of a block, in order. -/
def run (rt : Runtime M E) : List Operation → Machine M → Outcome M E
  | [], _ => .stuck
  | op :: ops, m =>
    match step rt op m with
    | .next m' => run rt ops m'
    | .done outcome => outcome

@[simp] theorem run_nil (rt : Runtime M E) (m : Machine M) : run rt [] m = .stuck := rfl

theorem run_next {rt : Runtime M E} {op : Operation} {m m' : Machine M}
    (h : step rt op m = .next m') (ops : List Operation) :
    run rt (op :: ops) m = run rt ops m' := by
  simp only [run, h]

theorem run_done {rt : Runtime M E} {op : Operation} {m : Machine M} {outcome : Outcome M E}
    (h : step rt op m = .done outcome) (ops : List Operation) :
    run rt (op :: ops) m = outcome := by
  simp only [run, h]

theorem step_value {rt : Runtime M E} {op : Operation} {m : Machine M} {r : ValueId}
    {v : BitVec 64} (hk : op.opcode.kind = .value) (hr : op.result = some r)
    (hv : valueOf op (operands m.values op) m.guest = some v) :
    step rt op m = .next { m with values := Function.update m.values r v } := by
  simp only [step, hk, hr, hv]

theorem step_flags {rt : Runtime M E} {op : Operation} {m : Machine M} {rflags : BitVec 64}
    (hk : op.opcode.kind = .flags)
    (hf : flagUpdate op (operands m.values op) m.guest.rflags = some rflags) :
    step rt op m = .next { m with guest := { m.guest with rflags := rflags } } := by
  simp only [step, hk, hf]

theorem step_guest {rt : Runtime M E} {op : Operation} {m : Machine M} {g : GuestState}
    (hk : op.opcode.kind = .guest)
    (hg : guestUpdate op (operands m.values op) m.guest = some g) :
    step rt op m = .next { m with guest := g } := by
  simp only [step, hk, hg]

theorem step_exit {rt : Runtime M E} {op : Operation} {m : Machine M} {g : GuestState}
    (hk : op.opcode.kind = .exit)
    (hg : exitUpdate op (operands m.values op) m.guest = some g) :
    step rt op m = .done (.exit op.exitKind g m.memory) := by
  simp only [step, hk, hg]

/-! ## What a step can do -/

/-- The states an operation can lead to, with what it read. -/
inductive Steps (rt : Runtime M E) (op : Operation) (m : Machine M) : Machine M → Prop
  | value {r : ValueId} {v : BitVec 64} (hk : op.opcode.kind = .value)
      (hr : op.result = some r) (hv : valueOf op (operands m.values op) m.guest = some v) :
      Steps rt op m { m with values := Function.update m.values r v }
  | flags {rflags : BitVec 64} (hk : op.opcode.kind = .flags)
      (hf : flagUpdate op (operands m.values op) m.guest.rflags = some rflags) :
      Steps rt op m { m with guest := { m.guest with rflags := rflags } }
  | guest {g : GuestState} (hk : op.opcode.kind = .guest)
      (hg : guestUpdate op (operands m.values op) m.guest = some g) :
      Steps rt op m { m with guest := g }
  | load {r a : ValueId} {v : BitVec op.width.bits} {memory : M} (hk : op.opcode.kind = .load)
      (hr : op.result = some r) (ha : op.lhs = some a)
      (hl : rt.load op.width (m.values a) m.memory = (.ok v, memory)) :
      Steps rt op m
        { m with values := Function.update m.values r (v.setWidth 64), memory := memory }
  | store {a v : ValueId} {memory : M} (hk : op.opcode.kind = .store)
      (ha : op.lhs = some a) (hv : op.rhs = some v)
      (hs : rt.store op.width (m.values a) ((m.values v).setWidth _) m.memory =
        (.ok (), memory)) :
      Steps rt op m { m with memory := memory }
  | helper {g : GuestState} {memory : M} (hk : op.opcode.kind = .helper)
      (hh : rt.helper op.payload (operands m.values op) m.guest m.memory = (.ok (), g, memory)) :
      Steps rt op m { m with guest := g, memory := memory }

theorem Steps.of_step {rt : Runtime M E} {op : Operation} {m n : Machine M}
    (h : step rt op m = .next n) : Steps rt op m n := by
  unfold step at h
  cases hk : op.opcode.kind with
  | value =>
    simp only [hk] at h
    split at h
    · next r v hr hv =>
      cases h
      exact .value hk hr hv
    · cases h
  | flags =>
    simp only [hk] at h
    split at h
    · next f hf =>
      cases h
      exact .flags hk hf
    · cases h
  | guest =>
    simp only [hk] at h
    split at h
    · next g hg =>
      cases h
      exact .guest hk hg
    · cases h
  | load =>
    simp only [hk] at h
    split at h
    · next r address hr ha =>
      obtain ⟨a, hlhs, rfl⟩ := Option.map_eq_some_iff.mp ha
      split at h
      · next v memory hl =>
        cases h
        exact .load hk hr hlhs hl
      · cases h
    · cases h
  | store =>
    simp only [hk] at h
    split at h
    · next address v ha hv =>
      obtain ⟨a, hlhs, rfl⟩ := Option.map_eq_some_iff.mp ha
      obtain ⟨b, hrhs, rfl⟩ := Option.map_eq_some_iff.mp hv
      split at h
      · next memory hs =>
        cases h
        exact .store hk hlhs hrhs hs
      · cases h
    · cases h
  | exit =>
    simp only [hk] at h
    split at h <;> cases h
  | helper =>
    simp only [hk] at h
    split at h
    · next g memory hh =>
      cases h
      exact .helper hk hh
    · cases h

theorem Steps.regs_eq {rt : Runtime M E} {op : Operation} {m n : Machine M}
    (h : Steps rt op m n) (hg : op.opcode.kind ≠ .guest) (hh : op.opcode.kind ≠ .helper) :
    n.guest.regs = m.guest.regs := by
  cases h with
  | guest hk => exact absurd hk hg
  | helper hk => exact absurd hk hh
  | _ => rfl

theorem Steps.of_readGuestReg {rt : Runtime M E} {op : Operation} {m n : Machine M}
    (h : Steps rt op m n) (hop : op.opcode = .readGuestReg) {r : Register} {v : ValueId}
    (hreg : op.guestRegister = some r) (hr : op.result = some v) :
    n.values v = op.width.hostResult (m.guest.regs r) ∧ n.guest = m.guest := by
  cases h with
  | value hk hr' hv =>
    obtain rfl : v = _ := Option.some.inj (hr ▸ hr')
    simp only [valueOf, hop, hreg, Option.map_some, Option.some.injEq] at hv
    simp [hv]
  | load hk | flags hk | guest hk | store hk | helper hk => simp [hop, Opcode.kind] at hk

theorem Steps.of_writeGuestReg {rt : Runtime M E} {op : Operation} {m n : Machine M}
    (h : Steps rt op m n) (hop : op.opcode = .writeGuestReg) {r : Register} {v : ValueId}
    (hreg : op.guestRegister = some r) (hl : op.lhs = some v) :
    n.guest.regs =
        Function.update m.guest.regs r (op.width.merge (m.guest.regs r) (m.values v)) ∧
      n.values = m.values := by
  cases h with
  | guest hk hg =>
    simp only [guestUpdate, hop, hreg, operands, hl, Option.map_some, Option.bind_eq_bind,
      Option.bind_some, Option.some.injEq] at hg
    simp [← hg]
  | value hk | load hk | flags hk | store hk | helper hk => simp [hop, Opcode.kind] at hk

theorem Steps.of_conditionalMoveGuestReg {rt : Runtime M E} {op : Operation} {m n : Machine M}
    (h : Steps rt op m n) (hop : op.opcode = .conditionalMoveGuestReg) {r s : Register}
    (hreg : op.guestRegister = some r) (hne : s ≠ r) : n.guest.regs s = m.guest.regs s := by
  cases h with
  | guest hk hg =>
    simp only [guestUpdate, hop, hreg, Option.bind_eq_bind, Option.bind_some,
      Option.bind_eq_some_iff, Option.some.injEq] at hg
    obtain ⟨c, -, source, -, v, -, rfl⟩ := hg
    simp [hne]
  | value hk | load hk | flags hk | store hk | helper hk => simp [hop, Opcode.kind] at hk

theorem Steps.of_add {rt : Runtime M E} {op : Operation} {m n : Machine M}
    (h : Steps rt op m n) (hop : op.opcode = .add) {a b r : ValueId} (ha : op.lhs = some a)
    (hb : op.rhs = some b) (hr : op.result = some r) :
    n.values r = op.width.hostResult (m.values a + m.values b) := by
  cases h with
  | value hk hr' hv =>
    obtain rfl : r = _ := Option.some.inj (hr ▸ hr')
    simp only [valueOf, hop, operands, ha, hb, Option.map_some, Option.bind_eq_bind,
      Option.bind_some, Option.some.injEq] at hv
    simp [hv]
  | load hk | flags hk | guest hk | store hk | helper hk => simp [hop, Opcode.kind] at hk

/-- Two steps of one operation from states that name the operands differently : the same
end, or states that differ as before with the same value written to the result. -/
def SameEffect (result : Option ValueId) (m m' : Machine M) : Effect M E → Effect M E → Prop
  | .done outcome, .done outcome' => outcome' = outcome
  | .next n, .next n' =>
    n'.guest = n.guest ∧ n'.memory = n.memory ∧
      ((n.values = m.values ∧ n'.values = m'.values) ∨
        ∃ r v, result = some r ∧ n.values = Function.update m.values r v ∧
          n'.values = Function.update m'.values r v)
  | _, _ => False

theorem step_rename (rt : Runtime M E) {op : Operation} {f : ValueId → ValueId}
    {m m' : Machine M} (ho : operands m'.values (op.rename f) = operands m.values op)
    (hg : m'.guest = m.guest) (hm : m'.memory = m.memory) :
    SameEffect op.result m m' (step rt op m) (step rt (op.rename f) m') := by
  obtain ⟨values, guest, memory⟩ := m
  obtain ⟨values', guest', memory'⟩ := m'
  obtain rfl : guest' = guest := hg
  obtain rfl : memory' = memory := hm
  have hresult : (op.rename f).result = op.result := rfl
  have hkind : (op.rename f).opcode.kind = op.opcode.kind := rfl
  have hvalue (o g) : valueOf (op.rename f) o g = valueOf op o g := rfl
  have hflags (o g) : flagUpdate (op.rename f) o g = flagUpdate op o g := rfl
  have hguest (o g) : guestUpdate (op.rename f) o g = guestUpdate op o g := rfl
  have hexit (o g) : exitUpdate (op.rename f) o g = exitUpdate op o g := rfl
  have hpayload : (op.rename f).payload = op.payload := rfl
  simp only [step, ho, hkind, hresult, hvalue, hflags, hguest, hexit, hpayload]
  generalize operands values op = o
  cases op.opcode.kind with
  | value =>
    rcases op.result with _ | r <;> rcases valueOf op o guest' with _ | v
    case some.some => exact ⟨rfl, rfl, .inr ⟨r, v, rfl, rfl, rfl⟩⟩
    all_goals rfl
  | flags =>
    rcases flagUpdate op o guest'.rflags with _ | rflags
    · rfl
    · exact ⟨rfl, rfl, .inl ⟨rfl, rfl⟩⟩
  | guest =>
    rcases guestUpdate op o guest' with _ | g
    · rfl
    · exact ⟨rfl, rfl, .inl ⟨rfl, rfl⟩⟩
  | load =>
    rcases op.result with _ | r <;> rcases o.lhs with _ | address
    case some.some =>
      dsimp only
      rcases hload : rt.load op.width address memory' with ⟨error | v, memory⟩
      all_goals have hload' : rt.load (op.rename f).width address memory' = _ := hload
      · rw [hload']; rfl
      · rw [hload']; exact ⟨rfl, rfl, .inr ⟨r, _, rfl, rfl, rfl⟩⟩
    all_goals rfl
  | store =>
    rcases o.lhs with _ | address <;> rcases o.rhs with _ | v
    case some.some =>
      dsimp only
      rcases hstore : rt.store op.width address (v.setWidth _) memory' with ⟨error | u, memory⟩
      all_goals have hstore' : rt.store (op.rename f).width address (v.setWidth _) memory' = _ := hstore
      · rw [hstore']; rfl
      · rw [hstore']; exact ⟨rfl, rfl, .inl ⟨rfl, rfl⟩⟩
    all_goals rfl
  | exit =>
    rcases exitUpdate op o guest' with _ | g
    · rfl
    · rfl
  | helper =>
    dsimp only
    rcases rt.helper op.payload o guest' memory' with ⟨error | u, g, memory⟩
    · rfl
    · exact ⟨rfl, rfl, .inl ⟨rfl, rfl⟩⟩

/-! ## Self edges -/

/-- The block once, from its first operation. -/
def runBlock (rt : Runtime M E) (block : Block) (g : GuestState) (memory : M) : Outcome M E :=
  run rt block.operations ⟨fun _ => 0, g, memory⟩

/-- The state after an exit that jumps back to the start of the block. -/
def selfEdge (block : Block) : Outcome M E → Option (GuestState × M)
  | .exit kind g memory =>
    if (kind = .conditional ∨ kind = .direct) ∧ g.rip = block.start then some (g, memory) else none
  | _ => none

/-- The block again and again while it takes its self edge, which it may `repeats` times;
with the number of executions. -/
def runRepeated (rt : Runtime M E) (block : Block) :
    Nat → GuestState → M → Outcome M E × Nat
  | 0, g, memory => (runBlock rt block g memory, 1)
  | repeats + 1, g, memory =>
    match selfEdge block (runBlock rt block g memory) with
    | some (g', memory') =>
      let result := runRepeated rt block repeats g' memory'
      (result.1, result.2 + 1)
    | none => (runBlock rt block g memory, 1)

end Rosa
