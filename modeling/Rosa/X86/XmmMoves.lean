import Rosa.X86.Addresses

/-!
# Moves of XMM registers

The branches of `x86/DecodeScalarSpecial.cpp`, `x86/DecodeOperandOverride.cpp` and
`x86/DecodeSimdMemory.cpp` that decode register copies, `0F 16`, `MOVDDUP`, `MOVD` and `MOVSD`,
and the cases of `x86/Lowering.cpp` that lower them. Against them stands what the bytes mean :
`moveAt` reads the move off the encoding and `XmmMove.meaning` carries it out.

The one move that does something else is `0F 16` with a memory operand. The architecture loads
the high half (`MOVHPS`); the lowering replaces the low half and keeps the high one, as its
comment and its test say. `XmmMove.meaning` takes the half as an argument.
-/

namespace Rosa

namespace X86

open Lowering

/-! ## Decoding -/

/-- The opcodes of the moves, from `x86::Opcode`. -/
inductive MoveOpcode
  | movapdRegReg | movapsRegReg | movdqaRegReg | movlhpsRegReg | movlhpsRegMem
  | movddupRegReg | movddupRegMem | movdXmmReg | movqXmmReg | movdXmmMem
  | movsdRegMem | movsdMemXmm
  deriving DecidableEq, Repr

abbrev MoveInstruction := DecodedInstruction MoveOpcode

/-- A branch of the decoder : it does not know the bytes, or it throws, or it decodes them. -/
abbrev Branch := List Byte → GuestAddress → Except String (Option MoveInstruction)

/-- The instruction, with its bytes copied. -/
def finish (code : List Byte) (address : GuestAddress) (opcode : MoveOpcode) (length : Nat)
    (operands : List Operand) : MoveInstruction :=
  ⟨address, opcode, code.take length, length, operands⟩

/-- The operand of the middle field of ModRM. -/
def middleXmm (rex modrm : Byte) : XmmRegister := decodeXmmRegister (middleOf modrm) (rexR rex)

/-- The operand of the low field of ModRM, in register form. -/
def rmXmm (rex modrm : Byte) : XmmRegister := decodeXmmRegister (rmOf modrm) (rexB rex)

def movlhpsMessages : OperandMessages where
  sib := ""
  noBase := "only RIP-relative or based MOVLHPS xmm, m64 is supported"
  rexX := none
  disp8 := "truncated MOVLHPS m64 disp8"
  disp32 := "truncated MOVLHPS m64 disp32"
  ripDisp32 := "truncated MOVLHPS m64 disp32"

/-- `decodeScalarSpecial`, `0F 16`. -/
def decodeMovlhps : Branch := fun code address =>
  let offset := if byteAt code 0 = 0x0F then 0 else 1
  if (byteAt code 0 = 0x0F ∨ isRex (byteAt code 0) = true) ∧ 2 ≤ code.length ∧
      offset < code.length ∧ byteAt code offset = 0x0F ∧ 2 ≤ code.length - offset ∧
      byteAt code (offset + 1) = 0x16 then
    if code.length - offset < 3 then .error "truncated movlhps xmm, xmm"
    else
      let rex := if byteAt code 0 = 0x0F then 0 else byteAt code 0
      let modrm := byteAt code (offset + 2)
      if modeOf modrm = 3 then
        .ok (some (finish code address .movlhpsRegReg (offset + 3)
          [.xmm (middleXmm rex modrm), .xmm (rmXmm rex modrm)]))
      else do
        let (memory, cursor) ←
          decodeBasedOperand movlhpsMessages code address (offset + 3) rex modrm 64
        .ok (some (finish code address .movlhpsRegMem cursor
          [.xmm (middleXmm rex modrm), .memory memory]))
  else .ok none

def movdMessages : OperandMessages where
  sib := "truncated MOVD load SIB byte"
  noBase := "no-base MOVD load SIB addressing is not supported"
  rexX := none
  disp8 := "truncated MOVD load disp8"
  disp32 := "truncated MOVD load disp32"
  ripDisp32 := "truncated RIP-relative MOVD load disp32"

/-- `decodeOperandOverride`, `66 0F 6E`. -/
def decodeMovd : Branch := fun code address =>
  let hasRex := isRex (byteAt code 1)
  let offset := if hasRex then 2 else 1
  if byteAt code 0 = 0x66 ∧ 2 ≤ code.length ∧ offset < code.length ∧
      byteAt code offset = 0x0F ∧ 2 ≤ code.length - offset ∧ byteAt code (offset + 1) = 0x6E then
    if code.length - offset < 3 then .error "truncated movd xmm, r32"
    else
      let rex := if hasRex then byteAt code 1 else 0
      let modrm := byteAt code (offset + 2)
      if modeOf modrm ≠ 3 ∧ rexW rex = true then .error "MOVQ XMM memory load is not yet supported"
      else if modeOf modrm = 3 then
        .ok (some (finish code address (if rexW rex then .movqXmmReg else .movdXmmReg) (offset + 3)
          [.xmm (middleXmm rex modrm),
            .register (decodeRegister (rmOf modrm) (rexB rex)) (if rexW rex then 64 else 32)]))
      else do
        let (memory, cursor) ← decodeSibOperand movdMessages code (offset + 3) rex modrm 32
        .ok (some (finish code address .movdXmmMem cursor
          [.xmm (middleXmm rex modrm), .memory memory]))
  else .ok none

def movsdMessages : OperandMessages where
  sib := "truncated MOVSD memory SIB"
  noBase := "no-base MOVSD memory SIB is not supported"
  rexX := some "REX.X requires a MOVSD memory SIB"
  disp8 := "truncated MOVSD memory disp8"
  disp32 := "truncated MOVSD memory disp32"
  ripDisp32 := "truncated MOVSD memory disp32"

/-- `decodeSimdMemory`, `F2 0F 10` and `F2 0F 11`. -/
def decodeMovsd : Branch := fun code address =>
  let hasRex := isRex (byteAt code 1) && decide (4 ≤ code.length - 1)
  let offset := if hasRex then 2 else 1
  if byteAt code 0 = 0xF2 ∧ 4 ≤ code.length ∧ 3 ≤ code.length - offset ∧
      byteAt code offset = 0x0F ∧
      (byteAt code (offset + 1) = 0x10 ∨ byteAt code (offset + 1) = 0x11) then
    let rex := if hasRex then byteAt code 1 else 0
    let modrm := byteAt code (offset + 2)
    if modeOf modrm = 3 then .error "register-direct MOVSD is not supported"
    else do
      let (memory, cursor) ← decodeSibOperand movsdMessages code (offset + 3) rex modrm 64
      if byteAt code (offset + 1) = 0x10 then
        .ok (some (finish code address .movsdRegMem cursor
          [.xmm (middleXmm rex modrm), .memory memory]))
      else
        .ok (some (finish code address .movsdMemXmm cursor
          [.memory memory, .xmm (middleXmm rex modrm)]))
  else .ok none

def movddupMessages : OperandMessages where
  sib := ""
  noBase := "only RIP-relative or based MOVDDUP xmm, m64 is supported"
  rexX := none
  disp8 := "truncated MOVDDUP m64 disp8"
  disp32 := "truncated MOVDDUP m64 disp32"
  ripDisp32 := "truncated MOVDDUP m64 disp32"

/-- `decodeSimdMemory`, `F2 0F 12`. -/
def decodeMovddup : Branch := fun code address =>
  if (byteAt code 0 = 0xF2 ∧ 4 ≤ code.length ∧ byteAt code 1 = 0x0F ∧ byteAt code 2 = 0x12) ∨
      (5 ≤ code.length ∧ byteAt code 0 = 0xF2 ∧ isRex (byteAt code 1) = true ∧
        byteAt code 2 = 0x0F ∧ byteAt code 3 = 0x12) then
    let offset := if byteAt code 1 = 0x0F then 1 else 2
    let rex := if byteAt code 1 = 0x0F then 0 else byteAt code 1
    if rexW rex = true ∨ rexX rex = true then .error "MOVDDUP does not support REX.W/X"
    else
      let modrm := byteAt code (offset + 2)
      if modeOf modrm = 3 then
        .ok (some (finish code address .movddupRegReg (offset + 3)
          [.xmm (middleXmm rex modrm), .xmm (rmXmm rex modrm)]))
      else do
        let (memory, cursor) ←
          decodeBasedOperand movddupMessages code address (offset + 3) rex modrm 64
        .ok (some (finish code address .movddupRegMem cursor
          [.xmm (middleXmm rex modrm), .memory memory]))
  else .ok none

/-- A copy between registers whose mandatory prefix ends at `prefixEnd`. The memory forms are
other instructions. -/
def decodeMovapsFrom (code : List Byte) (address : GuestAddress) (opcode : MoveOpcode)
    (prefixEnd : Nat) : Except String (Option MoveInstruction) :=
  let hasRex := decide (prefixEnd < code.length) && isRex (byteAt code prefixEnd)
  let offset := prefixEnd + if hasRex then 1 else 0
  if 2 ≤ code.length - offset ∧ byteAt code offset = 0x0F ∧
      (byteAt code (offset + 1) = 0x10 ∨ byteAt code (offset + 1) = 0x28) then
    if code.length - offset < 3 then .error "truncated xmm load from guest memory"
    else
      let rex := if hasRex then byteAt code prefixEnd else 0
      let modrm := byteAt code (offset + 2)
      if modeOf modrm = 3 then
        .ok (some (finish code address opcode (offset + 3)
          [.xmm (middleXmm rex modrm), .xmm (rmXmm rex modrm)]))
      else .ok none
  else .ok none

/-- `decodeSimdMemory`, `0F 10`, `0F 28` and the same with `66`, in register form. -/
def decodeMovaps : Branch := fun code address =>
  if byteAt code 0 = 0x66 then decodeMovapsFrom code address .movapdRegReg 1
  else decodeMovapsFrom code address .movapsRegReg 0

/-- `decodeSimdMemory`, `66 0F 6F` without REX, in register form. -/
def decodeMovdqa : Branch := fun code address =>
  if byteAt code 0 = 0x66 ∧ 3 ≤ code.length ∧ byteAt code 1 = 0x0F ∧ byteAt code 2 = 0x6F then
    if code.length < 4 then .error "truncated movdqa xmm, [base+disp]"
    else
      let modrm := byteAt code 3
      if modeOf modrm = 3 then
        .ok (some (finish code address .movdqaRegReg 4
          [.xmm (middleXmm 0 modrm), .xmm (rmXmm 0 modrm)]))
      else .ok none
  else .ok none

/-- The branches, in the order in which the decoder tries them. -/
def moveBranches : List Branch :=
  [decodeMovlhps, decodeMovd, decodeMovsd, decodeMovddup, decodeMovaps, decodeMovdqa]

/-! ## Lowering -/

/-- `memory.width != 64 || ...`, the shapes that the cases refuse. -/
def refused (memory : MemoryOperand) : Bool :=
  memory.width != 64 ||
    (if memory.ripRelative then memory.hasBase || memory.index.isSome else !memory.hasBase) ||
    memory.segment != .none

/-- `std::get` of two operands. -/
def xmmXmm (i : MoveInstruction) (message : String) : Lowering (XmmRegister × XmmRegister) :=
  match i.operands with
  | [.xmm destination, .xmm source] => pure (destination, source)
  | [_, _] => raise "std::get: wrong index for variant"
  | _ => raise message

def xmmMemory (i : MoveInstruction) (message : String) : Lowering (XmmRegister × MemoryOperand) :=
  match i.operands with
  | [.xmm destination, .memory memory] => pure (destination, memory)
  | [_, _] => raise "std::get: wrong index for variant"
  | _ => raise message

def memoryXmm (i : MoveInstruction) (message : String) : Lowering (MemoryOperand × XmmRegister) :=
  match i.operands with
  | [.memory memory, .xmm source] => pure (memory, source)
  | [_, _] => raise "std::get: wrong index for variant"
  | _ => raise message

def xmmRegister (i : MoveInstruction) (message : String) : Lowering (XmmRegister × Register) :=
  match i.operands with
  | [.xmm destination, .register source _] => pure (destination, source)
  | [_, _] => raise "std::get: wrong index for variant"
  | _ => raise message

/-- The case of `MOVAPS`, `MOVAPD` and `MOVDQA` between registers. -/
def lowerCopy (i : MoveInstruction) : Lowering Unit := do
  let (destination, source) ←
    xmmXmm i "internal decoder error: aligned XMM register move operand count"
  let low ← readGuestXmmLane i.address source false
  let high ← readGuestXmmLane i.address source true
  writeGuestXmmLane i.address destination false low
  writeGuestXmmLane i.address destination true high

/-- The case of `MOVLHPS` between registers. -/
def lowerMovlhps (i : MoveInstruction) : Lowering Unit := do
  let (destination, source) ← xmmXmm i "internal decoder error: MOVLHPS operand count"
  let sourceLow ← readGuestXmmLane i.address source false
  writeGuestXmmLane i.address destination true sourceLow

/-- The case of `0F 16` with a memory operand. -/
def lowerMovlhpsMemory (i : MoveInstruction) : Lowering Unit := do
  let (destination, memory) ← xmmMemory i "internal decoder error: MOVLHPS memory operand count"
  raiseIf (refused memory) "unsupported qword MOVLHPS addressing"
  let address ← baseAddress i memory
  let address ← addDisplacement i memory address
  let value ← loadGuest i.address address .i64
  writeGuestXmmLane i.address destination false value

/-- The case of `MOVDDUP` between registers. -/
def lowerMovddup (i : MoveInstruction) : Lowering Unit := do
  let (destination, source) ← xmmXmm i "internal decoder error: MOVDDUP operand count"
  let duplicated ← readGuestXmmLane i.address source false
  writeGuestXmmLane i.address destination false duplicated
  writeGuestXmmLane i.address destination true duplicated

/-- The case of `MOVDDUP` with a memory operand. -/
def lowerMovddupMemory (i : MoveInstruction) : Lowering Unit := do
  let (destination, memory) ← xmmMemory i "internal decoder error: MOVDDUP operand count"
  raiseIf (refused memory) "unsupported qword MOVDDUP addressing"
  let address ← baseAddress i memory
  let address ← addDisplacement i memory address
  let duplicated ← loadGuest i.address address .i64
  writeGuestXmmLane i.address destination false duplicated
  writeGuestXmmLane i.address destination true duplicated

/-- The case of `MOVD` and `MOVQ` from a general register. -/
def lowerMovd (i : MoveInstruction) (width : Width) : Lowering Unit := do
  let (destination, source) ←
    xmmRegister i "internal decoder error: MOVD XMM register operand count"
  let low ← readGuestRegister i.address source width
  let zero ← constant i.address 0 .i64
  writeGuestXmmLane i.address destination false low
  writeGuestXmmLane i.address destination true zero

/-- The case of `MOVD` with a memory operand. -/
def lowerMovdMemory (i : MoveInstruction) : Lowering Unit := do
  let (destination, memory) ← xmmMemory i "internal decoder error: MOVD XMM memory operand count"
  let address ← baseAddress i memory
  let address ← addIndex i memory address
  let address ← addDisplacement i memory address
  let low ← loadGuest i.address address .i32
  let zero ← constant i.address 0 .i64
  writeGuestXmmLane i.address destination false low
  writeGuestXmmLane i.address destination true zero

/-- The base of a `MOVSD` address. -/
def movsdBase (i : MoveInstruction) (memory : MemoryOperand) : Lowering ValueId :=
  if memory.ripRelative then constant i.address (i.address + BitVec.ofNat 64 i.length) .i64
  else if memory.hasBase then readGuestRegister i.address memory.base .i64
  else constant i.address 0 .i64

/-- The case of the `MOVSD` load. -/
def lowerMovsdLoad (i : MoveInstruction) : Lowering Unit := do
  let (xmm, memory) ← xmmMemory i "unsupported qword scalar MOVSD addressing"
  raiseIf (refused memory) "unsupported qword scalar MOVSD addressing"
  let address ← movsdBase i memory
  let address ← addIndex i memory address
  let address ← addDisplacement i memory address
  let value ← loadGuest i.address address .i64
  writeGuestXmmLane i.address xmm false value
  let zero ← constant i.address 0 .i64
  writeGuestXmmLane i.address xmm true zero

/-- The case of the `MOVSD` store. -/
def lowerMovsdStore (i : MoveInstruction) : Lowering Unit := do
  let (memory, xmm) ← memoryXmm i "unsupported qword scalar MOVSD addressing"
  raiseIf (refused memory) "unsupported qword scalar MOVSD addressing"
  let address ← movsdBase i memory
  let address ← addIndex i memory address
  let address ← addDisplacement i memory address
  let value ← readGuestXmmLane i.address xmm false
  storeGuest i.address address value .i64

/-- The cases of `lowerToIr`. -/
def lowerMove (i : MoveInstruction) : Lowering Unit :=
  match i.opcode with
  | .movapdRegReg | .movapsRegReg | .movdqaRegReg => lowerCopy i
  | .movlhpsRegReg => lowerMovlhps i
  | .movlhpsRegMem => lowerMovlhpsMemory i
  | .movddupRegReg => lowerMovddup i
  | .movddupRegMem => lowerMovddupMemory i
  | .movdXmmReg => lowerMovd i .i32
  | .movqXmmReg => lowerMovd i .i64
  | .movdXmmMem => lowerMovdMemory i
  | .movsdRegMem => lowerMovsdLoad i
  | .movsdMemXmm => lowerMovsdStore i

/-! ## What the bytes mean -/

/-- A move of the architecture. -/
inductive XmmMove
  | copy (destination source : XmmRegister)
  | lowToHigh (destination source : XmmRegister)
  | loadHalf (destination : XmmRegister) (address : Addressing)
  | duplicate (destination source : XmmRegister)
  | duplicateLoad (destination : XmmRegister) (address : Addressing)
  | fromRegister (destination : XmmRegister) (source : Register) (wide : Bool)
  | loadClearing (destination : XmmRegister) (address : Addressing) (wide : Bool)
  | storeLow (address : Addressing) (source : XmmRegister)
  deriving DecidableEq, Repr

/-- The moves in register form, by prefix and opcode. -/
def registerMove (mandatory opcode rex modrm : Byte) : Option XmmMove :=
  match mandatory.toNat, opcode.toNat with
  | 0x00, 0x10 | 0x00, 0x28 | 0x66, 0x10 | 0x66, 0x28 | 0x66, 0x6F =>
    some (.copy (middleXmm rex modrm) (rmXmm rex modrm))
  | 0x00, 0x16 => some (.lowToHigh (middleXmm rex modrm) (rmXmm rex modrm))
  | 0xF2, 0x12 => some (.duplicate (middleXmm rex modrm) (rmXmm rex modrm))
  | 0x66, 0x6E =>
    some (.fromRegister (middleXmm rex modrm) (decodeRegister (rmOf modrm) (rexB rex)) (rexW rex))
  | _, _ => none

/-- The moves with a memory operand, by prefix and opcode. -/
def memoryMove (mandatory opcode rex modrm : Byte) (address : Addressing) : Option XmmMove :=
  match mandatory.toNat, opcode.toNat with
  | 0x00, 0x16 => some (.loadHalf (middleXmm rex modrm) address)
  | 0xF2, 0x12 => some (.duplicateLoad (middleXmm rex modrm) address)
  | 0x66, 0x6E => some (.loadClearing (middleXmm rex modrm) address (rexW rex))
  | 0xF2, 0x10 => some (.loadClearing (middleXmm rex modrm) address true)
  | 0xF2, 0x11 => some (.storeLow address (middleXmm rex modrm))
  | _, _ => none

/-- The move of an opcode at an offset, and where it ends. -/
def moveFrom (code : List Byte) (mandatory rex : Byte) (offset : Nat) : Option (XmmMove × Nat) :=
  if offset + 3 ≤ code.length ∧ byteAt code offset = 0x0F then
    let opcode := byteAt code (offset + 1)
    let modrm := byteAt code (offset + 2)
    if modeOf modrm = 3 then
      (registerMove mandatory opcode rex modrm).map fun move => (move, offset + 3)
    else
      (operandAt code (offset + 3) rex modrm).bind fun a =>
        (memoryMove mandatory opcode rex modrm a.1).map fun move => (move, a.2)
  else none

/-- The move that bytes encode, and its length : a mandatory prefix, REX and a two-byte
opcode. -/
def moveAt (code : List Byte) : Option (XmmMove × Nat) :=
  let hasMandatory := decide (byteAt code 0 = 0x66 ∨ byteAt code 0 = 0xF2)
  let mandatory := if hasMandatory then byteAt code 0 else 0
  let start := if hasMandatory then 1 else 0
  if isRex (byteAt code start) then moveFrom code mandatory (byteAt code start) (start + 1)
  else moveFrom code mandatory 0 start

section

variable {M E : Type}

/-- A load, and what is done with the value. -/
def loading (rt : Runtime M E) (w : Width) (address : BitVec 64) (g : GuestState) (memory : M)
    (f : BitVec 64 → GuestState) : Except E Unit × GuestState × M :=
  match rt.load w address memory with
  | (.ok v, memory) => (.ok (), f (v.setWidth 64), memory)
  | (.error e, memory) => (.error e, g, memory)

/-- What a move does. `high` is the half that `0F 16` with a memory operand loads, and `next`
the address of the next instruction. -/
def XmmMove.meaning (rt : Runtime M E) (high : Bool) (next : BitVec 64) (g : GuestState)
    (memory : M) : XmmMove → Except E Unit × GuestState × M
  | .copy d s => (.ok (), g.setXmm d (g.xmm s), memory)
  | .lowToHigh d s => (.ok (), g.setXmm d ((g.xmm d).1, (g.xmm s).1), memory)
  | .loadHalf d a =>
    loading rt .i64 (a.effective next g.regs) g memory fun v =>
      g.setXmm d (setLane (g.xmm d) high v)
  | .duplicate d s => (.ok (), g.setXmm d ((g.xmm s).1, (g.xmm s).1), memory)
  | .duplicateLoad d a =>
    loading rt .i64 (a.effective next g.regs) g memory fun v => g.setXmm d (v, v)
  | .fromRegister d r wide =>
    (.ok (), g.setXmm d (if wide then g.regs r else ((g.regs r).setWidth 32).setWidth 64, 0), memory)
  | .loadClearing d a wide =>
    loading rt (if wide then .i64 else .i32) (a.effective next g.regs) g memory fun v =>
      g.setXmm d (v, 0)
  | .storeLow a s =>
    match rt.store .i64 (a.effective next g.regs) (g.xmm s).1 memory with
    | (.ok _, memory) => (.ok (), g, memory)
    | (.error e, memory) => (.error e, g, memory)

end

/-! ## The decoder reads the move off the bytes -/

/-- The decoded record of a move. -/
inductive Represents : MoveInstruction → XmmMove → Prop
  | copy {i d s} (ho : i.opcode = .movapdRegReg ∨ i.opcode = .movapsRegReg ∨
      i.opcode = .movdqaRegReg) (hs : i.operands = [.xmm d, .xmm s]) : Represents i (.copy d s)
  | lowToHigh {i d s} (ho : i.opcode = .movlhpsRegReg) (hs : i.operands = [.xmm d, .xmm s]) :
      Represents i (.lowToHigh d s)
  | loadHalf {i d operand} (ho : i.opcode = .movlhpsRegMem)
      (hs : i.operands = [.xmm d, .memory operand]) (hf : operand.Formed 64)
      (hx : operand.index = none) : Represents i (.loadHalf d operand.addressing)
  | duplicate {i d s} (ho : i.opcode = .movddupRegReg) (hs : i.operands = [.xmm d, .xmm s]) :
      Represents i (.duplicate d s)
  | duplicateLoad {i d operand} (ho : i.opcode = .movddupRegMem)
      (hs : i.operands = [.xmm d, .memory operand]) (hf : operand.Formed 64)
      (hx : operand.index = none) : Represents i (.duplicateLoad d operand.addressing)
  | fromRegister {i d r width wide} (ho : i.opcode = if wide then .movqXmmReg else .movdXmmReg)
      (hs : i.operands = [.xmm d, .register r width]) : Represents i (.fromRegister d r wide)
  | loadDword {i d operand} (ho : i.opcode = .movdXmmMem)
      (hs : i.operands = [.xmm d, .memory operand]) (hf : operand.Formed 32) :
      Represents i (.loadClearing d operand.addressing false)
  | loadQword {i d operand} (ho : i.opcode = .movsdRegMem)
      (hs : i.operands = [.xmm d, .memory operand]) (hf : operand.Formed 64) :
      Represents i (.loadClearing d operand.addressing true)
  | storeLow {i s operand} (ho : i.opcode = .movsdMemXmm)
      (hs : i.operands = [.memory operand, .xmm s]) (hf : operand.Formed 64) :
      Represents i (.storeLow operand.addressing s)

/-- The branch decodes moves only, and decodes them as the bytes say. -/
def Reads (branch : Branch) : Prop :=
  ∀ code address i, branch code address = .ok (some i) →
    i.address = address ∧ ∃ move, moveAt code = some (move, i.length) ∧ Represents i move

theorem moveFrom_register {code : List Byte} {mandatory rex opcode : Byte} {offset : Nat}
    {move : XmmMove} (hsize : offset + 3 ≤ code.length) (hescape : byteAt code offset = 0x0F)
    (hopcode : byteAt code (offset + 1) = opcode) (hmode : modeOf (byteAt code (offset + 2)) = 3)
    (hmove : registerMove mandatory opcode rex (byteAt code (offset + 2)) = some move) :
    moveFrom code mandatory rex offset = some (move, offset + 3) := by
  rw [moveFrom, if_pos ⟨hsize, hescape⟩]
  dsimp only
  rw [if_pos hmode, hopcode, hmove, Option.map_some]

theorem moveFrom_memory {code : List Byte} {mandatory rex opcode : Byte} {offset e : Nat}
    {a : Addressing} {move : XmmMove} (hsize : offset + 3 ≤ code.length)
    (hescape : byteAt code offset = 0x0F) (hopcode : byteAt code (offset + 1) = opcode)
    (hmode : modeOf (byteAt code (offset + 2)) ≠ 3)
    (ha : operandAt code (offset + 3) rex (byteAt code (offset + 2)) = some (a, e))
    (hmove : memoryMove mandatory opcode rex (byteAt code (offset + 2)) a = some move) :
    moveFrom code mandatory rex offset = some (move, e) := by
  rw [moveFrom, if_pos ⟨hsize, hescape⟩]
  dsimp only
  rw [if_neg hmode, ha, Option.bind_some, hopcode, hmove, Option.map_some]

theorem moveAt_plain {code : List Byte} (h : byteAt code 0 = 0x0F) :
    moveAt code = moveFrom code 0 0 0 := by
  simp [moveAt, h, isRex]

theorem moveAt_rex {code : List Byte} (h : isRex (byteAt code 0) = true) :
    moveAt code = moveFrom code 0 (byteAt code 0) 1 := by
  have hplain : ¬(byteAt code 0 = 0x66 ∨ byteAt code 0 = 0xF2) := by
    rintro (h' | h') <;> rw [h'] at h <;> exact absurd h (by decide)
  unfold moveAt
  rw [decide_eq_false hplain]
  exact if_pos h

theorem moveAt_mandatory {code : List Byte} {mandatory : Byte} (h : byteAt code 0 = mandatory)
    (hm : mandatory = 0x66 ∨ mandatory = 0xF2) :
    moveAt code = if isRex (byteAt code 1) then moveFrom code mandatory (byteAt code 1) 2
      else moveFrom code mandatory 0 1 := by
  unfold moveAt
  rw [h, decide_eq_true hm]
  rfl

/-- A branch that decodes has its guard. -/
theorem guarded {c : Prop} [Decidable c] {x : Except String (Option MoveInstruction)}
    {i : MoveInstruction} (h : (if c then x else .ok none) = .ok (some i)) :
    c ∧ x = .ok (some i) := by
  by_cases hc : c
  · exact ⟨hc, by rwa [if_pos hc] at h⟩
  · rw [if_neg hc] at h
    cases h

theorem not_thrown {c : Prop} [Decidable c] {x : Except String (Option MoveInstruction)}
    {message : String} {i : MoveInstruction}
    (h : (if c then .error message else x) = .ok (some i)) : ¬c ∧ x = .ok (some i) := by
  by_cases hc : c
  · rw [if_pos hc] at h
    cases h
  · exact ⟨hc, by rwa [if_neg hc] at h⟩

theorem reads_movlhps : Reads decodeMovlhps := by
  intro code address i h
  unfold decodeMovlhps at h
  dsimp only at h
  obtain ⟨hguard, h⟩ := guarded h
  obtain ⟨hfirst, -, -, hescape, -, hopcode⟩ := hguard
  -- the offset and REX are those of the encoding
  obtain ⟨rex, offset, hrex, hoffset, hat⟩ : ∃ rex offset,
      (if byteAt code 0 = 0x0F then 0 else byteAt code 0) = rex ∧
      (if byteAt code 0 = 0x0F then 0 else 1) = offset ∧
      moveAt code = moveFrom code 0 rex offset := by
    by_cases hplain : byteAt code 0 = 0x0F
    · exact ⟨0, 0, if_pos hplain, if_pos hplain, moveAt_plain hplain⟩
    · exact ⟨_, 1, if_neg hplain, if_neg hplain,
        moveAt_rex (hfirst.resolve_left hplain)⟩
  rw [hrex, hoffset] at h
  rw [hoffset] at hescape hopcode
  split at h
  · cases h
  · next hsize =>
    split at h
    · next hmode =>
      obtain rfl := Option.some.inj (Except.ok.inj h)
      exact ⟨rfl, _, hat.trans (moveFrom_register (by omega) hescape hopcode hmode rfl),
        .lowToHigh rfl rfl⟩
    · next hmode =>
      obtain ⟨⟨operand, e⟩, hoperand, hend⟩ := bind_ok_iff.mp h
      obtain rfl := Option.some.inj (Except.ok.inj hend)
      obtain ⟨ha, hformed, hindex⟩ := decodeBasedOperand_ok hmode hoperand
      exact ⟨rfl, _, hat.trans (moveFrom_memory (by omega) hescape hopcode hmode ha rfl),
        .loadHalf rfl rfl hformed hindex⟩

theorem reads_movd : Reads decodeMovd := by
  intro code address i h
  unfold decodeMovd at h
  dsimp only at h
  obtain ⟨hguard, h⟩ := guarded h
  obtain ⟨hlead, -, -, hescape, -, hopcode⟩ := hguard
  obtain ⟨rex, offset, hrex, hoffset, hat⟩ : ∃ rex offset,
      (if isRex (byteAt code 1) = true then byteAt code 1 else 0) = rex ∧
      (if isRex (byteAt code 1) = true then 2 else 1) = offset ∧
      moveAt code = moveFrom code 0x66 rex offset := by
    rw [moveAt_mandatory hlead (.inl rfl)]
    split
    · exact ⟨_, _, rfl, rfl, rfl⟩
    · exact ⟨_, _, rfl, rfl, rfl⟩
  rw [hrex, hoffset] at h
  rw [hoffset] at hescape hopcode
  split at h
  · cases h
  · next hsize =>
    split at h
    · cases h
    · next hwide =>
      split at h
      · next hmode =>
        obtain rfl := Option.some.inj (Except.ok.inj h)
        exact ⟨rfl, _, hat.trans (moveFrom_register (by omega) hescape hopcode hmode rfl),
          .fromRegister rfl rfl⟩
      · next hmode =>
        obtain ⟨⟨operand, e⟩, hoperand, hend⟩ := bind_ok_iff.mp h
        obtain rfl := Option.some.inj (Except.ok.inj hend)
        obtain ⟨ha, hformed⟩ := decodeSibOperand_ok hmode hoperand
        have hnarrow : rexW rex = false := by
          by_contra hw
          exact hwide ⟨hmode, by simpa using hw⟩
        refine ⟨rfl, _, hat.trans (moveFrom_memory (by omega) hescape hopcode hmode ha ?_),
          .loadDword rfl rfl hformed⟩
        show some (XmmMove.loadClearing _ _ (rexW rex)) = _
        rw [hnarrow]

theorem reads_movsd : Reads decodeMovsd := by
  intro code address i h
  unfold decodeMovsd at h
  dsimp only at h
  obtain ⟨hguard, h⟩ := guarded h
  obtain ⟨hlead, hlength, hsize, hescape, hopcode⟩ := hguard
  obtain ⟨rex, offset, hrex, hoffset, hat⟩ : ∃ rex offset,
      (if (isRex (byteAt code 1) && decide (4 ≤ code.length - 1)) = true then byteAt code 1
        else 0) = rex ∧
      (if (isRex (byteAt code 1) && decide (4 ≤ code.length - 1)) = true then 2 else 1) = offset ∧
      moveAt code = moveFrom code 0xF2 rex offset := by
    rw [moveAt_mandatory hlead (.inr rfl)]
    by_cases hr : isRex (byteAt code 1) = true
    · by_cases hlong : 4 ≤ code.length - 1
      · exact ⟨byteAt code 1, 2, by simp [hr, hlong], by simp [hr, hlong], by rw [if_pos hr]⟩
      · -- a REX byte that is too short a form is taken for the escape byte, and is not one
        rw [if_neg (by simp [hlong])] at hescape
        rw [hescape] at hr
        exact absurd hr (by decide)
    · exact ⟨0, 1, by simp [hr], by simp [hr], by rw [if_neg hr]⟩
  rw [hrex, hoffset] at h
  rw [hoffset] at hsize hescape hopcode
  split at h
  · cases h
  · next hmode =>
    obtain ⟨⟨operand, e⟩, hoperand, hend⟩ := bind_ok_iff.mp h
    obtain ⟨ha, hformed⟩ := decodeSibOperand_ok hmode hoperand
    dsimp only at hend
    split at hend
    · next hload =>
      obtain rfl := Option.some.inj (Except.ok.inj hend)
      exact ⟨rfl, _, hat.trans (moveFrom_memory (by omega) hescape hload hmode ha rfl),
        .loadQword rfl rfl hformed⟩
    · next hstore =>
      obtain rfl := Option.some.inj (Except.ok.inj hend)
      exact ⟨rfl, _, hat.trans (moveFrom_memory (by omega) hescape
        (hopcode.resolve_left hstore) hmode ha rfl), .storeLow rfl rfl hformed⟩

theorem reads_movddup : Reads decodeMovddup := by
  intro code address i h
  unfold decodeMovddup at h
  dsimp only at h
  obtain ⟨hguard, h⟩ := guarded h
  obtain ⟨rex, offset, hrex, hoffset, hat, hsize, hescape, hopcode⟩ : ∃ rex offset,
      (if byteAt code 1 = 0x0F then 0 else byteAt code 1) = rex ∧
      (if byteAt code 1 = 0x0F then 1 else 2) = offset ∧
      moveAt code = moveFrom code 0xF2 rex offset ∧ offset + 3 ≤ code.length ∧
      byteAt code offset = 0x0F ∧ byteAt code (offset + 1) = 0x12 := by
    rcases hguard with ⟨hlead, hsize, hescape, hopcode⟩ | ⟨hsize, hlead, hr, hescape, hopcode⟩
    · refine ⟨0, 1, if_pos hescape, if_pos hescape, ?_, hsize, hescape, hopcode⟩
      rw [moveAt_mandatory hlead (.inr rfl), hescape]
      rfl
    · have hne : byteAt code 1 ≠ 0x0F := fun he => absurd (he ▸ hr) (by decide)
      refine ⟨byteAt code 1, 2, if_neg hne, if_neg hne, ?_, hsize, hescape, hopcode⟩
      rw [moveAt_mandatory hlead (.inr rfl), if_pos hr]
  rw [hrex, hoffset] at h
  split at h
  · cases h
  · split at h
    · next hmode =>
      obtain rfl := Option.some.inj (Except.ok.inj h)
      exact ⟨rfl, _, hat.trans (moveFrom_register hsize hescape hopcode hmode rfl),
        .duplicate rfl rfl⟩
    · next hmode =>
      obtain ⟨⟨operand, e⟩, hoperand, hend⟩ := bind_ok_iff.mp h
      obtain rfl := Option.some.inj (Except.ok.inj hend)
      obtain ⟨ha, hformed, hindex⟩ := decodeBasedOperand_ok hmode hoperand
      exact ⟨rfl, _, hat.trans (moveFrom_memory hsize hescape hopcode hmode ha rfl),
        .duplicateLoad rfl rfl hformed hindex⟩

theorem movapsFrom_ok {code : List Byte} {address : GuestAddress} {opcode : MoveOpcode}
    {prefixEnd : Nat} {i : MoveInstruction}
    (h : decodeMovapsFrom code address opcode prefixEnd = .ok (some i)) :
    ∃ rex offset, ((isRex (byteAt code prefixEnd) = true ∧ rex = byteAt code prefixEnd ∧
        offset = prefixEnd + 1) ∨ (byteAt code prefixEnd = 0x0F ∧ rex = 0 ∧ offset = prefixEnd)) ∧
      offset + 3 ≤ code.length ∧ byteAt code offset = 0x0F ∧
      (byteAt code (offset + 1) = 0x10 ∨ byteAt code (offset + 1) = 0x28) ∧
      modeOf (byteAt code (offset + 2)) = 3 ∧
      i = finish code address opcode (offset + 3)
        [.xmm (middleXmm rex (byteAt code (offset + 2))),
          .xmm (rmXmm rex (byteAt code (offset + 2)))] := by
  unfold decodeMovapsFrom at h
  dsimp only at h
  obtain ⟨⟨hsize, hescape, hopcode⟩, hbody⟩ := guarded h
  obtain ⟨hlong, hform⟩ := not_thrown hbody
  obtain ⟨hmode, hend⟩ := guarded hform
  clear h hbody hform
  have hi := (Option.some.inj (Except.ok.inj hend)).symm
  by_cases hr : isRex (byteAt code prefixEnd) = true
  · have hlt : prefixEnd < code.length := by
      by_contra hge
      omega
    have hrex : (decide (prefixEnd < code.length) && isRex (byteAt code prefixEnd)) = true := by
      simp [hlt, hr]
    simp only [hrex, if_true] at hsize hescape hopcode hlong hmode hi
    exact ⟨_, _, .inl ⟨hr, rfl, rfl⟩, by omega, hescape, hopcode, hmode, hi⟩
  · have hrex : (decide (prefixEnd < code.length) && isRex (byteAt code prefixEnd)) = false := by
      simp [hr]
    simp only [hrex, if_false, Bool.false_eq_true, Nat.add_zero] at hsize hescape hopcode hlong hmode hi
    exact ⟨_, _, .inr ⟨hescape, rfl, rfl⟩, by omega, hescape, hopcode, hmode, hi⟩

theorem reads_movaps : Reads decodeMovaps := by
  intro code address i h
  unfold decodeMovaps at h
  by_cases hlead : byteAt code 0 = 0x66
  · rw [if_pos hlead] at h
    obtain ⟨rex, offset, hstart, hsize, hescape, hopcode, hmode, rfl⟩ := movapsFrom_ok h
    have hat : moveAt code = moveFrom code 0x66 rex offset := by
      rw [moveAt_mandatory hlead (.inl rfl)]
      rcases hstart with ⟨hr, rfl, rfl⟩ | ⟨hplain, rfl, rfl⟩
      · rw [if_pos hr]
      · rw [hplain]
        rfl
    refine ⟨rfl, _, hat.trans (moveFrom_register hsize hescape rfl hmode ?_), .copy (.inl rfl) rfl⟩
    rcases hopcode with ho | ho <;> rw [ho] <;> rfl
  · rw [if_neg hlead] at h
    obtain ⟨rex, offset, hstart, hsize, hescape, hopcode, hmode, rfl⟩ := movapsFrom_ok h
    have hat : moveAt code = moveFrom code 0 rex offset := by
      rcases hstart with ⟨hr, rfl, rfl⟩ | ⟨hplain, rfl, rfl⟩
      · exact moveAt_rex hr
      · exact moveAt_plain hplain
    refine ⟨rfl, _, hat.trans (moveFrom_register hsize hescape rfl hmode ?_),
      .copy (.inr (.inl rfl)) rfl⟩
    rcases hopcode with ho | ho <;> rw [ho] <;> rfl

theorem reads_movdqa : Reads decodeMovdqa := by
  intro code address i h
  obtain ⟨⟨hlead, -, hescape, hopcode⟩, hbody⟩ := guarded h
  obtain ⟨hlong, hform⟩ := not_thrown hbody
  obtain ⟨hmode, hend⟩ := guarded hform
  obtain rfl := Option.some.inj (Except.ok.inj hend)
  have hat : moveAt code = moveFrom code 0x66 0 1 := by
    rw [moveAt_mandatory hlead (.inl rfl), hescape]
    rfl
  exact ⟨rfl, _, hat.trans (moveFrom_register (by omega) hescape hopcode hmode rfl),
    .copy (.inr (.inr rfl)) rfl⟩

/-- Every branch decodes moves as the bytes say. -/
theorem reads_of_mem {branch : Branch} (h : branch ∈ moveBranches) : Reads branch := by
  simp only [moveBranches, List.mem_cons, List.not_mem_nil, or_false] at h
  rcases h with rfl | rfl | rfl | rfl | rfl | rfl
  · exact reads_movlhps
  · exact reads_movd
  · exact reads_movsd
  · exact reads_movddup
  · exact reads_movaps
  · exact reads_movdqa

/-! ## The lowering carries out the move -/

section

variable {M E α : Type} {rt : Runtime M E} {n : Nat} {m : Machine M} {i : MoveInstruction}
variable {operand : MemoryOperand} {width : Nat}

theorem computes_movsdBase (hf : operand.Formed width) :
    Computes rt (movsdBase i operand) n m (baseValue i operand m.guest) := by
  unfold movsdBase baseValue
  split
  · exact computes_constant _ _
  · next hrip =>
    rw [if_pos (by rw [hf.based]; simpa using hrip)]
    exact computes_readGuestRegister _ _ .i64

theorem emits_writeLanes {r : XmmRegister} {a b : ValueId} {Q : Unit → Nat → Machine M → Prop}
    (h : Q () n { m with guest := m.guest.setXmm r (m.values a, m.values b) }) :
    Emits rt (writeGuestXmmLane i.address r false a >>= fun _ =>
      writeGuestXmmLane i.address r true b) n m Q F := by
  refine Emits.bind (emits_writeGuestXmmLane _ (emits_writeGuestXmmLane _ ?_))
  simpa [setLane, GuestState.setXmm] using h

/-- Running what is emitted does what the move means, with `0F 16` loading the low half. -/
def CarriesOut (rt : Runtime M E) (x : Lowering Unit) (n : Nat) (m : Machine M)
    (result : Except E Unit × GuestState × M) : Prop :=
  Emits rt x n m (fun _ _ m' => (.ok (), m'.guest, m'.memory) = result)
    fun o => observed (.done o) = some result

/-- The load of a case that goes on with `f`. -/
theorem carriesOut_loading {a : ValueId} {w : Width} {f : ValueId → Lowering Unit}
    {m0 : Machine M} {n0 : Nat} {address : BitVec 64} {result : Except E Unit × GuestState × M}
    (hc : Computed m0 n0 address a n m) {g : BitVec 64 → GuestState}
    (hresult : result = loading rt w address m0.guest m0.memory g)
    (h : ∀ (v : BitVec w.bits) memory, CarriesOut rt (f n) (n + 1)
      ({ m with memory := memory }.define n (v.setWidth 64)) (.ok (), g (v.setWidth 64), memory)) :
    CarriesOut rt (loadGuest i.address a w >>= f) n m result := by
  refine Emits.bind (emits_loadGuest _ ?_)
  unfold loading at hresult
  rw [hc.value, hc.memory]
  rcases hload : rt.load w address m0.memory with ⟨e | v, memory⟩
  · intro op o
    rw [hresult, hload, hc.guest]
    rfl
  · rw [hload] at hresult
    rw [hresult]
    exact h v memory

section

variable {d s : XmmRegister} {g : GuestState}

theorem carriesOut_copy (hs : i.operands = [.xmm d, .xmm s]) :
    CarriesOut rt (lowerCopy i) n m (.ok (), m.guest.setXmm d (m.guest.xmm s), m.memory) := by
  rw [lowerCopy, xmmXmm, hs]
  refine Emits.bind (Emits.pure ?_)
  refine (computes_readGuestXmmLane _ s false).then fun a n1 m1 h1 =>
    (computes_readGuestXmmLane _ s true).then fun b n2 m2 h2 => emits_writeLanes ?_
  rw [h2.keeps a h1.lt, h1.value, h2.value, h2.guest, h2.memory, h1.guest, h1.memory]
  rfl

theorem carriesOut_movlhps (hs : i.operands = [.xmm d, .xmm s]) :
    CarriesOut rt (lowerMovlhps i) n m
      (.ok (), m.guest.setXmm d ((m.guest.xmm d).1, (m.guest.xmm s).1), m.memory) := by
  rw [lowerMovlhps, xmmXmm, hs]
  refine Emits.bind (Emits.pure ?_)
  refine (computes_readGuestXmmLane _ s false).then fun a n1 m1 h1 => emits_writeGuestXmmLane _ ?_
  rw [h1.value, h1.guest, h1.memory]
  rfl

theorem carriesOut_movlhpsMemory (hs : i.operands = [.xmm d, .memory operand])
    (hf : operand.Formed 64) (hx : operand.index = none) :
    CarriesOut rt (lowerMovlhpsMemory i) n m (loading rt .i64 (addressOf i operand m.guest) m.guest
      m.memory fun v => m.guest.setXmm d (setLane (m.guest.xmm d) false v)) := by
  rw [lowerMovlhpsMemory, xmmMemory, hs]
  refine Emits.bind (Emits.pure (Emits.bind (Emits.raiseIf fun _ => ?_)))
  refine emits_based hf hx computes_baseAddress fun a n1 m1 h1 =>
    carriesOut_loading h1 rfl fun v memory => emits_writeGuestXmmLane _ ?_
  rw [Machine.define_self, Machine.define_guest, Machine.define_memory, h1.guest]
  rfl

theorem carriesOut_movddup (hs : i.operands = [.xmm d, .xmm s]) :
    CarriesOut rt (lowerMovddup i) n m
      (.ok (), m.guest.setXmm d ((m.guest.xmm s).1, (m.guest.xmm s).1), m.memory) := by
  rw [lowerMovddup, xmmXmm, hs]
  refine Emits.bind (Emits.pure ?_)
  refine (computes_readGuestXmmLane _ s false).then fun a n1 m1 h1 => emits_writeLanes ?_
  rw [h1.value, h1.guest, h1.memory]
  rfl

theorem carriesOut_movddupMemory (hs : i.operands = [.xmm d, .memory operand])
    (hf : operand.Formed 64) (hx : operand.index = none) :
    CarriesOut rt (lowerMovddupMemory i) n m (loading rt .i64 (addressOf i operand m.guest) m.guest
      m.memory fun v => m.guest.setXmm d (v, v)) := by
  rw [lowerMovddupMemory, xmmMemory, hs]
  refine Emits.bind (Emits.pure (Emits.bind (Emits.raiseIf fun _ => ?_)))
  refine emits_based hf hx computes_baseAddress fun a n1 m1 h1 =>
    carriesOut_loading h1 rfl fun v memory => emits_writeLanes ?_
  rw [Machine.define_self, Machine.define_guest, Machine.define_memory, h1.guest]

theorem carriesOut_movd {r : Register} (w : Width) (hs : i.operands = [.xmm d, .register r width]) :
    CarriesOut rt (lowerMovd i w) n m
      (.ok (), m.guest.setXmm d (w.hostResult (m.guest.regs r), 0), m.memory) := by
  rw [lowerMovd, xmmRegister, hs]
  refine Emits.bind (Emits.pure ?_)
  refine (computes_readGuestRegister _ r w).then fun a n1 m1 h1 =>
    (computes_constant _ 0).then fun b n2 m2 h2 => emits_writeLanes ?_
  rw [h2.keeps a h1.lt, h1.value, h2.value, h2.guest, h2.memory, h1.guest, h1.memory]

theorem carriesOut_movdMemory (hs : i.operands = [.xmm d, .memory operand])
    (hf : operand.Formed width) :
    CarriesOut rt (lowerMovdMemory i) n m (loading rt .i32 (addressOf i operand m.guest) m.guest
      m.memory fun v => m.guest.setXmm d (v, 0)) := by
  rw [lowerMovdMemory, xmmMemory, hs]
  refine Emits.bind (Emits.pure ?_)
  refine emits_indexed hf computes_baseAddress fun a n1 m1 h1 =>
    carriesOut_loading h1 rfl fun v memory => (computes_constant _ 0).then fun b n2 m2 h2 =>
      emits_writeLanes ?_
  rw [h2.keeps n1 (Nat.lt_succ_self n1), h2.value, h2.guest, h2.memory, Machine.define_self,
    Machine.define_guest, Machine.define_memory, h1.guest]

theorem carriesOut_movsdLoad (hs : i.operands = [.xmm d, .memory operand])
    (hf : operand.Formed 64) :
    CarriesOut rt (lowerMovsdLoad i) n m (loading rt .i64 (addressOf i operand m.guest) m.guest
      m.memory fun v => m.guest.setXmm d (v, 0)) := by
  rw [lowerMovsdLoad, xmmMemory, hs]
  refine Emits.bind (Emits.pure (Emits.bind (Emits.raiseIf fun _ => ?_)))
  refine emits_indexed hf (computes_movsdBase hf) fun a n1 m1 h1 =>
    carriesOut_loading h1 rfl fun v memory => Emits.bind (emits_writeGuestXmmLane _ ?_)
  refine (computes_constant _ 0).then fun b n2 m2 h2 => emits_writeGuestXmmLane _ ?_
  rw [h2.value, h2.guest, h2.memory, Machine.define_self, Machine.define_guest,
    Machine.define_memory, h1.guest]
  simp [setLane, GuestState.setXmm]

theorem carriesOut_movsdStore (hs : i.operands = [.memory operand, .xmm s])
    (hf : operand.Formed 64) :
    CarriesOut rt (lowerMovsdStore i) n m
      (match rt.store .i64 (addressOf i operand m.guest) (m.guest.xmm s).1 m.memory with
      | (.ok _, memory) => (.ok (), m.guest, memory)
      | (.error e, memory) => (.error e, m.guest, memory)) := by
  rw [lowerMovsdStore, memoryXmm, hs]
  refine Emits.bind (Emits.pure (Emits.bind (Emits.raiseIf fun _ => ?_)))
  refine emits_indexed hf (computes_movsdBase hf) fun a n1 m1 h1 =>
    (computes_readGuestXmmLane _ s false).then fun b n2 m2 h2 => emits_storeGuest _ ?_
  rw [h2.keeps a h1.lt, h1.value, h2.value, h2.memory, h1.memory, h2.guest, h1.guest,
    show (laneOf (m.guest.xmm s) false).setWidth Width.i64.bits = (m.guest.xmm s).1 from
      BitVec.setWidth_eq _]
  rcases rt.store .i64 (addressOf i operand m.guest) (m.guest.xmm s).1 m.memory with ⟨e | u, memory⟩
  · intro op o
    rfl
  · rfl

end

/-- Running the lowering of a move does what the move means. -/
theorem lowerMove_meaning {move : XmmMove} (h : Represents i move) :
    CarriesOut rt (lowerMove i) n m
      (move.meaning rt false (i.address + BitVec.ofNat 64 i.length) m.guest m.memory) := by
  cases h with
  | copy ho hs =>
    have hlower : lowerMove i = lowerCopy i := by
      rcases ho with ho | ho | ho <;> rw [lowerMove, ho]
    rw [hlower]
    exact carriesOut_copy hs
  | lowToHigh ho hs =>
    rw [lowerMove, ho]
    exact carriesOut_movlhps hs
  | loadHalf ho hs hf hx =>
    rw [lowerMove, ho]
    exact carriesOut_movlhpsMemory hs hf hx
  | duplicate ho hs =>
    rw [lowerMove, ho]
    exact carriesOut_movddup hs
  | duplicateLoad ho hs hf hx =>
    rw [lowerMove, ho]
    exact carriesOut_movddupMemory hs hf hx
  | @fromRegister d r registerWidth wide ho hs =>
    cases wide with
    | false =>
      rw [lowerMove, ho]
      exact carriesOut_movd .i32 hs
    | true =>
      rw [lowerMove, ho]
      exact carriesOut_movd .i64 hs
  | loadDword ho hs hf =>
    rw [lowerMove, ho]
    exact carriesOut_movdMemory hs hf
  | loadQword ho hs hf =>
    rw [lowerMove, ho]
    exact carriesOut_movsdLoad hs hf
  | storeLow ho hs hf =>
    rw [lowerMove, ho]
    exact carriesOut_movsdStore hs hf

end

/-! ## From the bytes to the state -/

/-- The bytes of an instruction that a branch decodes encode a move, and the operations it is
lowered to carry it out, with `0F 16` loading the half `high`. -/
def MovesAsEncoded (high : Bool) : Prop :=
  ∀ branch ∈ moveBranches, ∀ (code : List Byte) (address : GuestAddress) (i : MoveInstruction),
    branch code address = .ok (some i) →
      ∃ move, moveAt code = some (move, i.length) ∧
        ∀ (n : Nat) (ops : List Operation) (n' : Nat), lowerMove i n = .ok ((), ops, n') →
          ∀ (M E : Type) (rt : Runtime M E) (m : Machine M),
            observed (exec rt ops m) =
              some (move.meaning rt high (address + BitVec.ofNat 64 i.length) m.guest m.memory)

theorem movesAsEncoded_low : MovesAsEncoded false := by
  intro branch hbranch code address i h
  obtain ⟨rfl, move, hat, hrep⟩ := reads_of_mem hbranch code address i h
  exact ⟨move, hat, fun n ops n' hlower M E rt m => Emits.observed (lowerMove_meaning hrep) hlower⟩

/-- Memory in which every load gives 5. -/
def Runtime.fives : Runtime Unit Unit where
  load _ _ _ := (.ok 5, ())
  store _ _ _ _ := (.ok (), ())
  helper _ _ g _ := (.ok (), g, ())

/-- A guest whose XMM registers have 1 in the low and 2 in the high half. -/
def oneTwo : GuestState where
  regs _ := 0
  rip := 0
  rflags := 2
  xmm _ := (1, 2)
  ymmUpper _ := (0, 0)
  gsBase := 0

/-- `MOVHPS xmm0, [rax]` (`0F 16 00`) puts the loaded 5 below the 2, not above the 1. -/
theorem not_movesAsEncoded_high : ¬MovesAsEncoded true := by
  intro h
  obtain ⟨move, hat, hruns⟩ := h decodeMovlhps (by simp [moveBranches]) [0x0F, 0x16, 0x00] 0x1000
    _ rfl
  have hmove : move = .loadHalf 0 ⟨false, some .rax, none, 0⟩ :=
    congrArg Prod.fst (Option.some.inj (hat.symm.trans rfl))
  have hrun := hruns 0 _ _ rfl Unit Unit Runtime.fives ⟨fun _ => 0, oneTwo, ()⟩
  rw [hmove] at hrun
  have hxmm := congrArg (fun r => (r.map fun s => s.2.1.xmm 0)) hrun
  exact absurd hxmm (by decide)

end X86

end Rosa
