import Mathlib.Tactic

/-!
# The intermediate representation

`ir/IR.h` and the register and condition enumerations of `x86/`. A block is a straight
line of operations over values that are each defined once. Every operation carries the
same record of optional fields; which of them an opcode needs is what `verify` checks,
and `verify` checks no more than that : it does not look at the width a value was
defined at, and it lets an operation carry operands that its opcode does not read.

A vector indexed by a value (`std::vector<bool> defined(block.valueCount)`) is a
function of the value's number. The bound on the number is checked where the source
checks it.
-/

namespace Rosa

/-! ## Registers, conditions and widths -/

/-- The sixteen guest general registers, in the order of `x86::Register`. -/
inductive Register
  | rax | rcx | rdx | rbx | rsp | rbp | rsi | rdi
  | r8 | r9 | r10 | r11 | r12 | r13 | r14 | r15
  deriving DecidableEq, Repr

namespace Register

/-- `static_cast<std::size_t>(reg)`. -/
def index : Register → Nat
  | rax => 0 | rcx => 1 | rdx => 2 | rbx => 3 | rsp => 4 | rbp => 5 | rsi => 6 | rdi => 7
  | r8 => 8 | r9 => 9 | r10 => 10 | r11 => 11 | r12 => 12 | r13 => 13 | r14 => 14 | r15 => 15

/-- All registers, by index. -/
def all : List Register :=
  [rax, rcx, rdx, rbx, rsp, rbp, rsi, rdi, r8, r9, r10, r11, r12, r13, r14, r15]

/-- `static_cast<x86::Register>(index)`, for an index that names a register. -/
def ofIndex? (n : Nat) : Option Register := all[n]?

theorem mem_all (r : Register) : r ∈ all := by
  cases r <;> decide

@[simp] theorem ofIndex?_index (r : Register) : ofIndex? r.index = some r := by
  cases r <;> rfl

theorem index_lt (r : Register) : r.index < 16 := by
  cases r <;> decide

end Register

/-- An XMM register by number. -/
abbrev XmmRegister := Fin 16

/-- `x86::Condition`. -/
inductive Condition
  | overflow | notOverflow | parityEven | parityOdd | equal | notEqual | below | aboveOrEqual
  | above | belowOrEqual | sign | notSign | less | greaterOrEqual | lessOrEqual | greater
  deriving DecidableEq, Repr

/-- `ir::Width`. -/
inductive Width
  | i8 | i16 | i32 | i64
  deriving DecidableEq, Repr

namespace Width

/-- The number of bits, the enumerator's own value. -/
def bits : Width → Nat
  | i8 => 8 | i16 => 16 | i32 => 32 | i64 => 64

theorem bits_pos (w : Width) : 0 < w.bits := by
  cases w <;> decide

theorem bits_le (w : Width) : w.bits ≤ 64 := by
  cases w <;> decide

end Width

/-- The number of an IR value. -/
abbrev ValueId := Nat

/-- A guest virtual address. -/
abbrev GuestAddress := BitVec 64

/-! ## Operations -/

/-- `ir::Opcode`. -/
inductive Opcode
  | constant | readGuestReg | readGuestGsBase | writeGuestReg | conditionalMoveGuestReg
  | readGuestXmmLane | readGuestYmmUpperLane | writeGuestXmmLane | writeGuestYmmUpperLane
  | writeGuestXmmByte | writeGuestXmmDword
  | add | sub | shiftLeft | shiftRightLogical | shiftRightArithmetic
  | multiplyLow | multiplyHighUnsigned | multiplyHighSigned | shiftRightDouble
  | and | or | xor | signExtend32 | byteSwap | evaluateCondition
  | loadGuest | storeGuest | storeGuestXmm | storeGuestYmm | loadGuestXmm | loadGuestYmm
  | loadGuestSignExtendedBytesXmm | loadGuestSignExtendedDwordsXmm
  | xorGuestMemoryXmm | andGuestMemoryXmm | addGuestMemoryXmm | testXmmBits
  | compareEqualGuestBytesXmm | compareEqualGuestQwordsXmm | compareEqualXmmBytes
  | compareEqualXmmDwords | compareEqualXmmQwords | shiftLeftXmmDwords | addXmmWords
  | comparePackedDoubleXmm | arithmeticPackedDoubleXmm | arithmeticGuestMemoryPackedDoubleXmm
  | unpackHighPackedSingleXmm | unpackHighGuestPackedSingleXmm
  | horizontalAddPackedDoubleXmm | horizontalAddGuestPackedDoubleXmm
  | unpackLowPackedSingleXmm | unpackLowGuestPackedSingleXmm
  | updateUnorderedDoubleFlags | updateUnorderedFloatFlags
  | convertIntToDoubleXmm | convertDoubleToInt | convertFloatToDoubleXmm
  | convertInt32x2ToDoubleXmm | scalarDoubleXmm | addXmmDwords | horizontalAddXmmDwords
  | andNotXmm | moveXmmByteMask | shuffleXmmBytes | shuffleXmmDwords | alignRightXmmBytes
  | blendXmmWords | unpackLowXmmWords | bitScanForward | bitScanReverse
  | repeatMoveByte | repeatStore | divideUnsignedByte | divideUnsignedDword
  | divideUnsignedQword | divideSignedDword | push | addGuestMemory | subGuestMemory
  | orGuestMemory | andGuestMemory | shiftLeftGuestMemory | shiftRightGuestMemory
  | incrementGuestMemory | decrementGuestMemory | compareExchangeGuestMemory
  | compareExchangeGuestPair | exchangeGuestMemory | lockedAddGuestMemory
  | lockedExchangeAddGuestMemory | lockedIncrementGuestMemory | lockedDecrementGuestMemory
  | lockedOrGuestMemory | lockedAndGuestMemory | storeGuestIdtr | loadFence
  | writeDirectionFlag | storeFence | readTimestampCounter | cpuid
  | updateAddFlags | updateAdcFlags | updateSbbFlags | updateIncFlags | updateDecFlags
  | updateSubFlags | updateLogicFlags | updateShiftLeftFlags | updateShiftRightFlags
  | updateShiftRightArithmeticFlags | updateRotateLeftFlags | updateRotateRightFlags
  | updateMultiplyFlags | updateSignedMultiplyFlags | updateShiftRightDoubleFlags
  | updateBitTestFlags | lockedBitSetGuestMemory | exitBlock
  deriving DecidableEq, Repr

/-- `ir::ExitKind`. -/
inductive ExitKind
  | return | direct | conditional | call | syscall
  deriving DecidableEq, Repr

/-- `ir::Operation`. -/
structure Operation where
  opcode : Opcode
  width : Width := .i64
  guestRip : GuestAddress := 0
  result : Option ValueId := none
  lhs : Option ValueId := none
  rhs : Option ValueId := none
  third : Option ValueId := none
  guestRegister : Option Register := none
  guestXmmRegister : Option XmmRegister := none
  sourceGuestXmmRegister : Option XmmRegister := none
  target : Option GuestAddress := none
  fallthrough : Option GuestAddress := none
  condition : Option Condition := none
  exitKind : ExitKind := .return
  immediate : BitVec 64 := 0
  deriving DecidableEq, Repr

/-- The operation without the names of its values. -/
def Operation.payload (op : Operation) : Operation :=
  { op with result := none, lhs := none, rhs := none, third := none }

/-- The operation with other names for its operands. -/
def Operation.rename (op : Operation) (f : ValueId → ValueId) : Operation :=
  { op with lhs := op.lhs.map f, rhs := op.rhs.map f, third := op.third.map f }

/-- `ir::Block`. -/
structure Block where
  start : GuestAddress
  operations : List Operation
  valueCount : Nat
  deriving DecidableEq, Repr

/-! ## The verifier -/

/-- `checkUse` : the operand is there and already defined. -/
def checkUse (defined : ValueId → Bool) (value : Option ValueId) (role : String) : List String :=
  match value with
  | none => ["missing " ++ role ++ " value"]
  | some v => if defined v then [] else ["use of undefined " ++ role ++ " value"]

/-- An operand that may be left out. -/
def checkOptionalUse (defined : ValueId → Bool) (value : Option ValueId) (role : String) :
    List String :=
  if value.isSome then checkUse defined value role else []

/-- One error if the requirement fails. -/
def require (ok : Bool) (error : String) : List String := if ok then [] else [error]

/-- The case of `verify` for one operation. -/
def checkOperation (defined : ValueId → Bool) (op : Operation) : List String :=
  let use := checkUse defined
  let optionalUse := checkOptionalUse defined
  let xmm := op.guestXmmRegister.isSome
  let bothXmm := op.guestXmmRegister.isSome && op.sourceGuestXmmRegister.isSome
  let isOneOf (ws : List Width) : Bool := ws.contains op.width
  match op.opcode with
  | .constant | .readGuestReg | .readGuestGsBase => []
  | .readGuestXmmLane => require xmm "read_guest_xmm_lane has no register"
  | .readGuestYmmUpperLane =>
    require (xmm && op.immediate ≤ 1) "read_guest_ymm_upper_lane is incomplete"
  | .writeGuestReg =>
    use op.lhs "source" ++ require op.guestRegister.isSome "write_guest_reg has no register"
  | .conditionalMoveGuestReg =>
    require (op.guestRegister.isSome && op.condition.isSome &&
      (op.lhs.isSome || op.immediate < 16)) "conditional_move_guest_reg is incomplete" ++
    optionalUse op.lhs "source"
  | .writeGuestXmmLane =>
    use op.lhs "source" ++ require xmm "write_guest_xmm_lane has no register"
  | .writeGuestYmmUpperLane =>
    use op.lhs "source" ++
      require (xmm && op.immediate ≤ 1) "write_guest_ymm_upper_lane is incomplete"
  | .writeGuestXmmByte =>
    use op.lhs "source" ++
      require (xmm && op.width == .i8 && op.immediate < 16) "write_guest_xmm_byte is incomplete"
  | .writeGuestXmmDword =>
    use op.lhs "source" ++
      require (xmm && op.width == .i32 && op.immediate < 4) "write_guest_xmm_dword is incomplete"
  | .add | .sub | .and | .or | .xor | .multiplyLow | .multiplyHighUnsigned
  | .multiplyHighSigned | .shiftRightDouble => use op.lhs "left" ++ use op.rhs "right"
  | .shiftLeft | .shiftRightLogical | .shiftRightArithmetic =>
    use op.lhs "shifted" ++ optionalUse op.rhs "shift count"
  | .signExtend32 => use op.lhs "source"
  | .byteSwap =>
    use op.lhs "source" ++ require (isOneOf [.i32, .i64]) "byte_swap currently requires i32 or i64"
  | .evaluateCondition =>
    require op.condition.isSome "evaluate_condition has no condition"
  | .repeatMoveByte => require (op.width == .i8) "repeat_move_byte requires i8"
  | .repeatStore =>
    require (isOneOf [.i8, .i16, .i32, .i64]) "repeat_store requires i8, i16, i32, or i64"
  | .push => use op.lhs "new stack pointer" ++ use op.rhs "pushed value"
  | .addGuestMemory =>
    use op.lhs "guest address" ++ use op.rhs "source" ++
      require (isOneOf [.i8, .i16, .i32, .i64])
        "add_guest_memory currently requires i8, i16, i32, or i64"
  | .subGuestMemory =>
    use op.lhs "guest address" ++ use op.rhs "source" ++
      require (isOneOf [.i8, .i32, .i64]) "sub_guest_memory currently requires i8, i32, or i64"
  | .orGuestMemory =>
    use op.lhs "guest address" ++ use op.rhs "source" ++
      require (isOneOf [.i8, .i16, .i32, .i64])
        "or_guest_memory currently requires i8, i16, i32, or i64"
  | .andGuestMemory =>
    use op.lhs "guest address" ++ use op.rhs "source" ++
      require (isOneOf [.i8, .i16, .i32, .i64])
        "and_guest_memory currently requires i8, i16, i32, or i64"
  | .shiftLeftGuestMemory =>
    use op.lhs "guest address" ++
      require (op.width == .i64) "shift_left_guest_memory currently requires i64"
  | .shiftRightGuestMemory =>
    use op.lhs "guest address" ++
      require (isOneOf [.i32, .i64]) "shift_right_guest_memory currently requires i32 or i64"
  | .incrementGuestMemory | .decrementGuestMemory => use op.lhs "guest address"
  | .compareExchangeGuestMemory =>
    use op.lhs "guest address" ++ use op.rhs "source" ++
      require (isOneOf [.i8, .i32, .i64])
        "compare_exchange_guest_memory currently requires i8, i32, or i64"
  | .compareExchangeGuestPair =>
    use op.lhs "guest address" ++
      require (op.width == .i64) "compare_exchange_guest_pair requires i64 lanes"
  | .exchangeGuestMemory =>
    use op.lhs "guest address" ++ use op.rhs "source" ++
      require op.guestRegister.isSome "exchange_guest_memory lacks a destination register" ++
      require (isOneOf [.i8, .i32, .i64]) "exchange_guest_memory currently requires i8, i32 or i64"
  | .lockedAddGuestMemory =>
    use op.lhs "guest address" ++ use op.rhs "source" ++
      require (isOneOf [.i32, .i64]) "locked_add_guest_memory currently requires i32 or i64"
  | .lockedExchangeAddGuestMemory =>
    use op.lhs "guest address" ++ use op.rhs "source" ++
      require op.guestRegister.isSome "locked_exchange_add_guest_memory lacks a source register" ++
      require (isOneOf [.i16, .i32, .i64])
        "locked_exchange_add_guest_memory currently requires i16, i32, or i64"
  | .lockedIncrementGuestMemory =>
    use op.lhs "guest address" ++
      require (isOneOf [.i32, .i64]) "locked_increment_guest_memory currently requires i32 or i64"
  | .lockedDecrementGuestMemory =>
    use op.lhs "guest address" ++
      require (isOneOf [.i32, .i64]) "locked_decrement_guest_memory currently requires i32 or i64"
  | .lockedOrGuestMemory =>
    use op.lhs "guest address" ++ use op.rhs "immediate" ++
      require (isOneOf [.i8, .i16, .i32, .i64])
        "locked_or_guest_memory currently requires i8, i16, i32, or i64"
  | .lockedAndGuestMemory =>
    use op.lhs "guest address" ++ use op.rhs "immediate" ++
      require (isOneOf [.i16, .i32, .i64])
        "locked_and_guest_memory currently requires i16, i32, or i64"
  | .storeGuestIdtr => use op.lhs "guest address"
  | .storeGuest => use op.lhs "guest address" ++ use op.rhs "stored value"
  | .storeGuestXmm => use op.lhs "guest address" ++ require xmm "store_guest_xmm has no register"
  | .storeGuestYmm => use op.lhs "guest address" ++ require xmm "store_guest_ymm has no register"
  | .loadGuestXmm => use op.lhs "guest address" ++ require xmm "load_guest_xmm has no register"
  | .loadGuestYmm => use op.lhs "guest address" ++ require xmm "load_guest_ymm has no register"
  | .loadGuestSignExtendedBytesXmm =>
    use op.lhs "guest address" ++
      require xmm "load_guest_sign_extended_bytes_xmm has no register"
  | .loadGuestSignExtendedDwordsXmm =>
    use op.lhs "guest address" ++
      require xmm "load_guest_sign_extended_dwords_xmm has no register"
  | .xorGuestMemoryXmm =>
    use op.lhs "guest address" ++ require xmm "xor_guest_memory_xmm has no register"
  | .andGuestMemoryXmm =>
    use op.lhs "guest address" ++ require xmm "and_guest_memory_xmm has no register"
  | .addGuestMemoryXmm =>
    use op.lhs "guest address" ++ require xmm "add_guest_memory_xmm has no register"
  | .testXmmBits => require bothXmm "test_xmm_bits has incomplete registers"
  | .compareEqualGuestBytesXmm =>
    use op.lhs "guest address" ++ require xmm "compare_equal_guest_bytes_xmm has no register"
  | .compareEqualGuestQwordsXmm =>
    use op.lhs "guest address" ++ require xmm "compare_equal_guest_qwords_xmm has no register"
  | .compareEqualXmmBytes => require bothXmm "compare_equal_xmm_bytes has incomplete registers"
  | .compareEqualXmmDwords =>
    require (bothXmm && op.width == .i32) "compare_equal_xmm_dwords has incomplete registers"
  | .compareEqualXmmQwords =>
    require (bothXmm && op.width == .i64) "compare_equal_xmm_qwords has incomplete registers"
  | .shiftLeftXmmDwords =>
    require (xmm && op.width == .i32) "shift_left_xmm_dwords has incomplete operands"
  | .addXmmWords =>
    require (bothXmm && op.width == .i16) "add_xmm_words has incomplete registers"
  | .comparePackedDoubleXmm =>
    require (bothXmm && op.width == .i64) "compare_packed_double_xmm has incomplete registers"
  | .arithmeticPackedDoubleXmm =>
    require (bothXmm && op.width == .i64 && op.immediate ≤ 4)
      "arithmetic_packed_double_xmm has incomplete operands"
  | .arithmeticGuestMemoryPackedDoubleXmm =>
    use op.lhs "guest address" ++
      require (xmm && op.width == .i64 && op.immediate ≤ 4)
        "arithmetic_guest_memory_packed_double_xmm has incomplete operands"
  | .unpackHighPackedSingleXmm =>
    require (bothXmm && op.width == .i64) "unpack_high_packed_single_xmm has incomplete registers"
  | .unpackHighGuestPackedSingleXmm =>
    use op.lhs "guest address" ++
      require (xmm && op.width == .i64)
        "unpack_high_guest_packed_single_xmm has incomplete operands"
  | .horizontalAddPackedDoubleXmm =>
    require (bothXmm && op.width == .i64)
      "horizontal_add_packed_double_xmm has incomplete registers"
  | .horizontalAddGuestPackedDoubleXmm =>
    use op.lhs "guest address" ++
      require (xmm && op.width == .i64)
        "horizontal_add_guest_packed_double_xmm has incomplete operands"
  | .unpackLowPackedSingleXmm =>
    require (bothXmm && op.width == .i64) "unpack_low_packed_single_xmm has incomplete registers"
  | .unpackLowGuestPackedSingleXmm =>
    use op.lhs "guest address" ++
      require (xmm && op.width == .i64)
        "unpack_low_guest_packed_single_xmm has incomplete operands"
  | .updateUnorderedDoubleFlags =>
    use op.lhs "destination bits" ++ use op.rhs "source bits" ++
      require (op.width == .i64) "update_unordered_double_flags currently requires i64"
  | .updateUnorderedFloatFlags =>
    use op.lhs "destination bits" ++ use op.rhs "source bits" ++
      require (op.width == .i32) "update_unordered_float_flags currently requires i32"
  | .convertIntToDoubleXmm =>
    use op.lhs "integer value" ++
      require (xmm && isOneOf [.i32, .i64])
        "convert_int_to_double_xmm requires an XMM register and i32 or i64"
  | .convertDoubleToInt =>
    use op.lhs "double bits" ++
      require (op.guestRegister.isSome && isOneOf [.i32, .i64])
        "convert_double_to_int requires a register and i32 or i64"
  | .convertFloatToDoubleXmm =>
    use op.lhs "float value" ++
      require (xmm && op.width == .i32)
        "convert_float_to_double_xmm requires an XMM register and i32"
  | .convertInt32x2ToDoubleXmm =>
    use op.lhs "low qword bits" ++
      require (xmm && op.width == .i64)
        "convert_int32x2_to_double_xmm requires an XMM register and i64"
  | .scalarDoubleXmm =>
    use op.lhs "source double bits" ++
      require (xmm && op.immediate ≤ 6)
        "scalar_double_xmm requires an XMM register and operation 0-6"
  | .addXmmDwords =>
    require (bothXmm && op.width == .i32) "add_xmm_dwords has incomplete registers"
  | .horizontalAddXmmDwords =>
    require (bothXmm && op.width == .i32) "horizontal_add_xmm_dwords has incomplete registers"
  | .andNotXmm => require bothXmm "and_not_xmm has incomplete registers"
  | .moveXmmByteMask =>
    require (op.guestRegister.isSome && xmm) "move_xmm_byte_mask has incomplete registers"
  | .shuffleXmmBytes =>
    require (xmm && (op.lhs.isSome != op.sourceGuestXmmRegister.isSome))
      "shuffle_xmm_bytes has incomplete registers" ++ optionalUse op.lhs "guest address"
  | .shuffleXmmDwords =>
    require (bothXmm && op.immediate ≤ 0xFF) "shuffle_xmm_dwords is incomplete"
  | .alignRightXmmBytes =>
    require (bothXmm && op.immediate ≤ 0xFF) "align_right_xmm_bytes is incomplete"
  | .blendXmmWords => require (bothXmm && op.immediate ≤ 0xFF) "blend_xmm_words is incomplete"
  | .unpackLowXmmWords =>
    require (bothXmm && op.width == .i16) "unpack_low_xmm_words has incomplete registers"
  | .bitScanForward =>
    require op.guestRegister.isSome "bit_scan_forward has no destination register"
  | .bitScanReverse =>
    require op.guestRegister.isSome "bit_scan_reverse has no destination register"
  | .divideUnsignedByte =>
    use op.lhs "divisor" ++ require (op.width == .i8) "divide_unsigned_byte has the wrong width"
  | .divideUnsignedDword =>
    use op.lhs "divisor" ++ require (op.width == .i32) "divide_unsigned_dword has the wrong width"
  | .divideUnsignedQword =>
    use op.lhs "divisor" ++ require (op.width == .i64) "divide_unsigned_qword has the wrong width"
  | .divideSignedDword =>
    use op.lhs "divisor" ++ require (op.width == .i32) "divide_signed_dword has the wrong width"
  | .loadGuest => use op.lhs "guest address"
  | .loadFence | .storeFence | .readTimestampCounter | .cpuid => []
  | .writeDirectionFlag =>
    require (op.immediate ≤ 1) "write_direction_flag immediate is not 0 or 1"
  | .updateAddFlags | .updateSubFlags =>
    use op.lhs "left" ++ use op.rhs "right" ++ use op.third "result"
  | .updateAdcFlags =>
    use op.lhs "left" ++ use op.rhs "right" ++ use op.third "carry" ++
      require (isOneOf [.i8, .i32, .i64]) "update_adc_flags requires i8, i32 or i64"
  | .updateSbbFlags =>
    use op.lhs "left" ++ use op.rhs "right" ++ use op.third "borrow" ++
      require (isOneOf [.i8, .i16, .i32, .i64]) "update_sbb_flags requires i8, i16, i32, or i64"
  | .updateIncFlags | .updateDecFlags => use op.lhs "original" ++ use op.rhs "result"
  | .updateLogicFlags => use op.lhs "result"
  | .updateMultiplyFlags => use op.lhs "high result"
  | .updateSignedMultiplyFlags =>
    use op.lhs "left" ++ use op.rhs "right" ++
      require (isOneOf [.i32, .i64]) "update_signed_multiply_flags requires i32 or i64"
  | .updateShiftRightDoubleFlags => use op.lhs "original" ++ use op.rhs "result"
  | .updateBitTestFlags =>
    use op.lhs "tested value" ++
      require (isOneOf [.i32, .i64]) "update_bit_test_flags requires i32 or i64"
  | .lockedBitSetGuestMemory =>
    use op.lhs "guest address" ++
      require (isOneOf [.i32, .i64]) "locked_bit_set_guest_memory currently requires i32 or i64"
  | .updateShiftLeftFlags | .updateShiftRightFlags | .updateShiftRightArithmeticFlags =>
    use op.lhs "original" ++ use op.rhs "result" ++ optionalUse op.third "shift count"
  | .updateRotateLeftFlags =>
    use op.lhs "result" ++ optionalUse op.rhs "rotate count" ++
      require (isOneOf [.i16, .i32, .i64])
        "update_rotate_left_flags currently requires i16, i32, or i64"
  | .updateRotateRightFlags =>
    use op.lhs "result" ++
      require (isOneOf [.i32, .i64]) "update_rotate_right_flags requires i32 or i64"
  | .exitBlock =>
    (if (op.exitKind == .call || op.exitKind == .direct) && op.lhs.isSome then
      use op.lhs "indirect exit target"
    else require (op.exitKind == .return || op.target.isSome) "non-return exit has no target") ++
    require (!(op.exitKind == .conditional || op.exitKind == .call) || op.fallthrough.isSome)
      "conditional/call exit has no fallthrough" ++
    require (!(op.exitKind == .conditional) || op.condition.isSome)
      "conditional exit has no condition"

/-- The check of an operation's result : in range, and not defined before. -/
def checkResult (valueCount : Nat) (defined : ValueId → Bool) (result : Option ValueId) :
    List String :=
  match result with
  | none => []
  | some r =>
    if valueCount ≤ r then ["result value is outside block value table"]
    else if defined r then ["SSA value is defined more than once"] else []

/-- The values defined after an operation. -/
def define (valueCount : Nat) (defined : ValueId → Bool) (result : Option ValueId) :
    ValueId → Bool :=
  match result with
  | none => defined
  | some r => if r < valueCount then Function.update defined r true else defined

/-- The loop of `verify`. -/
def verifyFrom (valueCount : Nat) : List Operation → (ValueId → Bool) → Bool → List String
  | [], _, sawExit => require sawExit "block has no exit_block"
  | op :: ops, defined, sawExit =>
    require (!sawExit) "operation follows exit_block" ++ checkOperation defined op ++
      checkResult valueCount defined op.result ++
      verifyFrom valueCount ops (define valueCount defined op.result)
        (sawExit || op.opcode == .exitBlock)

/-- `ir::verify` : the errors of a block. -/
def verify (block : Block) : List String :=
  verifyFrom block.valueCount block.operations (fun _ => false) false

/-- The block is accepted. -/
def Block.Verified (block : Block) : Prop := verify block = []

instance (block : Block) : Decidable block.Verified := inferInstanceAs (Decidable (_ = _))

/-! ## What acceptance gives -/

@[simp] theorem require_eq_nil {ok : Bool} {error : String} : require ok error = [] ↔ ok = true := by
  cases ok <;> simp [require]

theorem checkUse_eq_nil {defined : ValueId → Bool} {value : Option ValueId} {role : String} :
    checkUse defined value role = [] ↔ ∃ v, value = some v ∧ defined v = true := by
  cases value with
  | none => simp [checkUse]
  | some v => by_cases h : defined v <;> simp [checkUse, h]

theorem checkOptionalUse_eq_nil {defined : ValueId → Bool} {value : Option ValueId}
    {role : String} :
    checkOptionalUse defined value role = [] ↔ ∀ v, value = some v → defined v = true := by
  cases value with
  | none => simp [checkOptionalUse]
  | some v => simp [checkOptionalUse, checkUse_eq_nil]

theorem checkResult_eq_nil {n : Nat} {defined : ValueId → Bool} {result : Option ValueId} :
    checkResult n defined result = [] ↔ ∀ r, result = some r → r < n ∧ defined r = false := by
  cases result with
  | none => simp [checkResult]
  | some r =>
    rcases Nat.lt_or_ge r n with h | h
    · by_cases hd : defined r <;> simp [checkResult, h, Nat.not_le.mpr h, hd]
    · simp [checkResult, h, Nat.not_lt.mpr h]

/-- Acceptance of a list of operations, one operation at a time. -/
theorem verifyFrom_cons {n : Nat} {op : Operation} {ops : List Operation}
    {defined : ValueId → Bool} {sawExit : Bool}
    (h : verifyFrom n (op :: ops) defined sawExit = []) :
    sawExit = false ∧ checkOperation defined op = [] ∧
      (∀ r, op.result = some r → r < n ∧ defined r = false) ∧
      verifyFrom n ops (define n defined op.result) (sawExit || op.opcode == .exitBlock) = [] := by
  simp only [verifyFrom, List.append_eq_nil_iff, require_eq_nil, Bool.not_eq_true'] at h
  obtain ⟨⟨⟨h1, h2⟩, h3⟩, h4⟩ := h
  exact ⟨h1, h2, checkResult_eq_nil.mp h3, h4⟩

/-- The values defined after an operation with a fresh result. -/
theorem define_iff {n : Nat} {defined : ValueId → Bool} {result : Option ValueId}
    (hlt : ∀ r, result = some r → r < n) (v : ValueId) :
    define n defined result v = true ↔ defined v = true ∨ result = some v := by
  cases result with
  | none => simp [define]
  | some r =>
    simp only [define, hlt r rfl, if_true, Function.update_apply, Option.some.injEq]
    split
    · next h => simp [h]
    · next h => simp [Ne.symm h]

end Rosa
