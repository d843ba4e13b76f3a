import Rosa.X86.Addresses

/-!
# Shifts, rotates, multiplications and divisions

The cases of `x86/Lowering.cpp` for shifts, rotates, double shifts, `BSWAP`, `NOT`, `NEG`, `MUL`,
`IMUL`, `DIV`, `IDIV` and `OR`, and the divide helpers of `dbt/RuntimeHelpers.cpp` that they call.
Against them stands what the instructions compute on a value of their width, with the effect on
each flag : it is set, kept or undefined.
-/

namespace Rosa

namespace X86

open Lowering

/-! ## What the instructions do -/

/-- What an instruction does to a flag. -/
inductive FlagEffect
  | set (value : Bool)
  | kept
  | undefined
  deriving DecidableEq, Repr

/-- The new value of a flag is one that the effect allows. -/
def FlagEffect.Meets (old new : Bool) : FlagEffect → Prop
  | .set value => new = value
  | .kept => new = old
  | .undefined => True

/-- The effect on each arithmetic flag. -/
structure FlagEffects where
  carry : FlagEffect
  parity : FlagEffect
  auxiliaryCarry : FlagEffect
  zero : FlagEffect
  sign : FlagEffect
  overflow : FlagEffect
  deriving DecidableEq, Repr

/-- The new flags are ones that the effects allow, and the rest of RFLAGS is as it was. Bit 1 is
reserved and one. -/
structure FlagEffects.Meets (e : FlagEffects) (old new : BitVec 64) : Prop where
  carry : e.carry.Meets (flagsOf old).carry (flagsOf new).carry
  parity : e.parity.Meets (flagsOf old).parity (flagsOf new).parity
  auxiliaryCarry : e.auxiliaryCarry.Meets (flagsOf old).auxiliaryCarry (flagsOf new).auxiliaryCarry
  zero : e.zero.Meets (flagsOf old).zero (flagsOf new).zero
  sign : e.sign.Meets (flagsOf old).sign (flagsOf new).sign
  overflow : e.overflow.Meets (flagsOf old).overflow (flagsOf new).overflow
  others : new &&& ~~~arithmeticFlagMask &&& ~~~flagReservedOne =
    old &&& ~~~arithmeticFlagMask &&& ~~~flagReservedOne

/-- No flag is touched. -/
def FlagEffects.none : FlagEffects := ⟨.kept, .kept, .kept, .kept, .kept, .kept⟩

/-- Carry and overflow only, with the other arithmetic flags undefined. -/
def FlagEffects.overflowing (value : Bool) : FlagEffects :=
  ⟨.set value, .undefined, .undefined, .undefined, .undefined, .set value⟩

/-- All arithmetic flags are undefined. -/
def FlagEffects.undefined : FlagEffects :=
  ⟨.undefined, .undefined, .undefined, .undefined, .undefined, .undefined⟩

section

variable {k : Nat}

/-- Parity, zero and sign of a result. -/
def FlagEffects.ofResult (result : BitVec k) (carry overflow auxiliaryCarry : FlagEffect) :
    FlagEffects :=
  ⟨carry, .set (parityEven (result.setWidth 64)), auxiliaryCarry, .set (result == 0#k),
    .set result.msb, overflow⟩

/-- `SHL` of a value by a masked count. -/
def shl (x : BitVec k) (c : Nat) : BitVec k × FlagEffects :=
  if c = 0 then (x, .none)
  else
    let result := x <<< c
    let carry := x.getLsbD (k - c)
    (result, .ofResult result (if c < k then .set carry else .undefined)
      (if c = 1 then .set (result.msb ^^ carry) else .undefined) .undefined)

/-- `SHR`. -/
def shr (x : BitVec k) (c : Nat) : BitVec k × FlagEffects :=
  if c = 0 then (x, .none)
  else
    (x >>> c, .ofResult (x >>> c) (if c < k then .set (x.getLsbD (c - 1)) else .undefined)
      (if c = 1 then .set x.msb else .undefined) .undefined)

/-- `SAR`. -/
def sar (x : BitVec k) (c : Nat) : BitVec k × FlagEffects :=
  if c = 0 then (x, .none)
  else
    (x.sshiftRight c, .ofResult (x.sshiftRight c)
      (if c < k then .set (x.getLsbD (c - 1)) else .undefined)
      (if c = 1 then .set false else .undefined) .undefined)

/-- `ROL` : the count is taken modulo the width for the value, not for the flags. -/
def rol (x : BitVec k) (c : Nat) : BitVec k × FlagEffects :=
  if c = 0 then (x, .none)
  else
    let result := x.rotateLeft c
    (result, { FlagEffects.none with
      carry := .set (result.getLsbD 0)
      overflow := if c = 1 then .set (result.msb ^^ result.getLsbD 0) else .undefined })

/-- `ROR`. -/
def ror (x : BitVec k) (c : Nat) : BitVec k × FlagEffects :=
  if c = 0 then (x, .none)
  else
    let result := x.rotateRight c
    (result, { FlagEffects.none with
      carry := .set result.msb
      overflow := if c = 1 then .set (result.msb ^^ result.getLsbD (k - 2)) else .undefined })

/-- `SHLD` : the vacated bits come from the top of `y`. -/
def shld (x y : BitVec k) (c : Nat) : BitVec k × FlagEffects :=
  if c = 0 then (x, .none)
  else
    let result := x <<< c ||| y >>> (k - c)
    (result, .ofResult result (.set (x.getLsbD (k - c)))
      (if c = 1 then .set (result.msb ^^ x.msb) else .undefined) .undefined)

/-- `SHRD` : the vacated bits come from the bottom of `y`. -/
def shrd (x y : BitVec k) (c : Nat) : BitVec k × FlagEffects :=
  if c = 0 then (x, .none)
  else
    let result := x >>> c ||| y <<< (k - c)
    (result, .ofResult result (.set (x.getLsbD (c - 1)))
      (if c = 1 then .set (result.msb ^^ x.msb) else .undefined) .undefined)

/-- `NEG`. -/
def neg (x : BitVec k) : BitVec k × FlagEffects :=
  (-x, .ofResult (-x) (.set (x != 0#k)) (.set (x.toInt == -2 ^ (k - 1)))
    (.set (x.setWidth 4 != 0#4)))

/-- `OR`. -/
def or (x y : BitVec k) : BitVec k × FlagEffects :=
  (x ||| y, .ofResult (x ||| y) (.set false) (.set false) .undefined)

/-- The bytes in reverse order. -/
def bswap (x : BitVec k) : BitVec k :=
  BitVec.ofNat k ((List.range (k / 8)).foldl (fun v i => v * 256 + x.toNat / 256 ^ i % 256) 0)

/-- The low part of a signed product, and whether the product fits it. -/
def imul (x y : BitVec k) : BitVec k × FlagEffects :=
  (x * y, .overflowing (decide ((x * y).toInt ≠ x.toInt * y.toInt)))

end

/-- The count of a shift : six bits at 64 bits, five otherwise. -/
def maskedCount (w : Width) (count : BitVec 64) : Nat :=
  count.toNat % if w = .i64 then 64 else 32

/-- The value of a register at a width. -/
def readReg (g : GuestState) (w : Width) (r : Register) : BitVec w.bits :=
  (g.regs r).setWidth w.bits

/-- The registers after a write at a width : the upper bits stay at 8 and 16 bits and are cleared
at 32 bits. -/
def writeReg (g : GuestState) (w : Width) (r : Register) (value : BitVec w.bits) : GuestState :=
  g.setReg r (w.merge (g.regs r) (value.setWidth 64))

/-- The end of an instruction : new registers with what may happen to the flags, or a fault. -/
inductive Ending (M E : Type)
  | done (guest : GuestState) (effects : FlagEffects) (memory : M)
  | fault (error : E) (memory : M)
  | divideError (memory : M)

/-- What is seen is what the ending allows, from the guest state `g`. -/
def Ending.Allows {M E : Type} (g : GuestState) (seen : Except E Unit × GuestState × M) :
    Ending M E → Prop
  | .done guest effects memory =>
    ∃ rflags, effects.Meets g.rflags rflags ∧
      seen = (.ok (), { guest with rflags := rflags }, memory)
  | .fault error memory => seen = (.error error, g, memory)
  | .divideError memory => ∃ error, seen = (.error error, g, memory)

/-! ## Instructions -/

/-- The opcodes, from `x86::Opcode`. -/
inductive AluOpcode
  | shlRegCl | shrRegImm | shrRegCl | sarRegCl | sarRegImm | rolRegImm | rolRegCl | rorRegImm
  | rorRegCl | shrdRegRegImm | shldRegRegImm | bswapReg | notReg | negReg | mulReg | imulReg
  | mulMem | imulMem | divReg | divMem | idivReg | imulRegReg | imulRegMem | imulRegRegImm
  | imulRegMemImm | orRegReg | orRegMem
  deriving DecidableEq, Repr

abbrev AluInstruction := DecodedInstruction AluOpcode

/-- The width of an operand. -/
def widthOf (bits : Nat) : Width :=
  if bits = 8 then .i8 else if bits = 16 then .i16 else if bits = 32 then .i32 else .i64

section

variable {M E : Type}

/-- One register is written. -/
def writing (g : GuestState) (memory : M) (w : Width) (r : Register)
    (p : BitVec w.bits × FlagEffects) : Ending M E :=
  .done (writeReg g w r p.1) p.2 memory

/-- The instruction goes on with a loaded value, or faults. -/
def loadingThen (rt : Runtime M E) (i : AluInstruction) (operand : MemoryOperand) (w : Width)
    (g : GuestState) (memory : M) (f : BitVec w.bits → M → Ending M E) : Ending M E :=
  match rt.load w (addressOf i operand g) memory with
  | (.ok v, memory) => f v memory
  | (.error e, memory) => .fault e memory

/-- `MUL` : the product in two registers, carry and overflow if the high part is not zero. -/
def multiplying (g : GuestState) (memory : M) (w : Width) (y : BitVec w.bits) : Ending M E :=
  let x := readReg g w .rax
  let high := BitVec.ofNat w.bits (x.toNat * y.toNat / 2 ^ w.bits)
  .done (writeReg (writeReg g w .rax (x * y)) w .rdx high) (.overflowing (high != 0#w.bits)) memory

/-- `IMUL` of one operand. -/
def multiplyingSigned (g : GuestState) (memory : M) (w : Width) (y : BitVec w.bits) :
    Ending M E :=
  let x := readReg g w .rax
  let high := BitVec.ofInt w.bits (x.toInt * y.toInt / 2 ^ w.bits)
  .done (writeReg (writeReg g w .rax (x * y)) w .rdx high) (imul x y).2 memory

/-- `DIV` of AX by a byte. -/
def dividingByte (g : GuestState) (memory : M) (y : BitVec 8) : Ending M E :=
  let x := (readReg g .i16 .rax).toNat
  if y = 0 ∨ 2 ^ 8 ≤ x / y.toNat then .divideError memory
  else .done (writeReg g .i16 .rax (BitVec.ofNat 8 (x % y.toNat) ++ BitVec.ofNat 8 (x / y.toNat)))
    .undefined memory

/-- `DIV` of two registers. -/
def dividing (g : GuestState) (memory : M) (w : Width) (y : BitVec w.bits) : Ending M E :=
  let x := (readReg g w .rdx).toNat * 2 ^ w.bits + (readReg g w .rax).toNat
  if y = 0 ∨ 2 ^ w.bits ≤ x / y.toNat then .divideError memory
  else .done (writeReg (writeReg g w .rax (BitVec.ofNat _ (x / y.toNat))) w .rdx
    (BitVec.ofNat _ (x % y.toNat))) .undefined memory

/-- `IDIV` of two registers : the quotient is rounded to zero. -/
def dividingSigned (g : GuestState) (memory : M) (w : Width) (y : BitVec w.bits) : Ending M E :=
  let x := (readReg g w .rdx ++ readReg g w .rax).toInt
  if y = 0 ∨ ¬(-2 ^ (w.bits - 1) ≤ x.tdiv y.toInt ∧ x.tdiv y.toInt < 2 ^ (w.bits - 1)) then
    .divideError memory
  else .done (writeReg (writeReg g w .rax (BitVec.ofInt _ (x.tdiv y.toInt))) w .rdx
    (BitVec.ofInt _ (x.tmod y.toInt))) .undefined memory

/-- What an instruction does. -/
def meaning (rt : Runtime M E) (i : AluInstruction) (g : GuestState) (memory : M) :
    Option (Ending M E) :=
  match i.opcode, i.operands with
  | .shlRegCl, [.register r bits] =>
    let w := widthOf bits
    some (writing g memory w r (shl (readReg g w r) (maskedCount w (g.regs .rcx))))
  | .shrRegImm, [.register r bits, .immediate count _] =>
    let w := widthOf bits
    some (writing g memory w r (shr (readReg g w r) (maskedCount w count)))
  | .shrRegCl, [.register r bits] =>
    let w := widthOf bits
    some (writing g memory w r (shr (readReg g w r) (maskedCount w (g.regs .rcx))))
  | .sarRegCl, [.register r bits] =>
    let w := widthOf bits
    some (writing g memory w r (sar (readReg g w r) (maskedCount w (g.regs .rcx))))
  | .sarRegImm, [.register r bits, .immediate count _] =>
    let w := widthOf bits
    some (writing g memory w r (sar (readReg g w r) (maskedCount w count)))
  | .rolRegImm, [.register r bits, .immediate count _] =>
    let w := widthOf bits
    some (writing g memory w r (rol (readReg g w r) (maskedCount w count)))
  | .rolRegCl, [.register r bits] =>
    let w := widthOf bits
    some (writing g memory w r (rol (readReg g w r) (maskedCount w (g.regs .rcx))))
  | .rorRegImm, [.register r bits, .immediate count _] =>
    let w := widthOf bits
    some (writing g memory w r (ror (readReg g w r) (maskedCount w count)))
  | .rorRegCl, [.register r bits] =>
    let w := widthOf bits
    some (writing g memory w r (ror (readReg g w r) (maskedCount w (g.regs .rcx))))
  | .shrdRegRegImm, [.register r bits, .register s _, .immediate count _] =>
    let w := widthOf bits
    some (writing g memory w r (shrd (readReg g w r) (readReg g w s) (maskedCount w count)))
  | .shldRegRegImm, [.register r bits, .register s _, .immediate count _] =>
    let w := widthOf bits
    some (writing g memory w r (shld (readReg g w r) (readReg g w s) (maskedCount w count)))
  | .bswapReg, [.register r bits] =>
    let w := widthOf bits
    some (writing g memory w r (bswap (readReg g w r), .none))
  | .notReg, [.register r bits] =>
    let w := widthOf bits
    some (writing g memory w r (~~~readReg g w r, .none))
  | .negReg, [.register r bits] =>
    let w := widthOf bits
    some (writing g memory w r (neg (readReg g w r)))
  | .mulReg, [.register r bits] =>
    some (multiplying g memory (widthOf bits) (readReg g (widthOf bits) r))
  | .imulReg, [.register r bits] =>
    some (multiplyingSigned g memory (widthOf bits) (readReg g (widthOf bits) r))
  | .mulMem, [.memory operand] =>
    some (loadingThen rt i operand (widthOf operand.width) g memory fun v memory =>
      multiplying g memory (widthOf operand.width) v)
  | .imulMem, [.memory operand] =>
    some (loadingThen rt i operand (widthOf operand.width) g memory fun v memory =>
      multiplyingSigned g memory (widthOf operand.width) v)
  | .divReg, [.register r bits] =>
    if bits = 8 then some (dividingByte g memory (readReg g .i8 r))
    else some (dividing g memory (widthOf bits) (readReg g (widthOf bits) r))
  | .divMem, [.memory operand] =>
    some (loadingThen rt i operand (widthOf operand.width) g memory fun v memory =>
      dividing g memory (widthOf operand.width) v)
  | .idivReg, [.register r bits] =>
    some (dividingSigned g memory (widthOf bits) (readReg g (widthOf bits) r))
  | .imulRegReg, [.register r bits, .register s _] =>
    let w := widthOf bits
    some (writing g memory w r (imul (readReg g w r) (readReg g w s)))
  | .imulRegMem, [.register r bits, .memory operand] =>
    let w := widthOf bits
    some (loadingThen rt i operand w g memory fun v memory =>
      writing g memory w r (imul (readReg g w r) v))
  | .imulRegRegImm, [.register r bits, .register s _, .immediate value _] =>
    let w := widthOf bits
    some (writing g memory w r (imul (readReg g w s) (value.setWidth w.bits)))
  | .imulRegMemImm, [.register r bits, .memory operand, .immediate value _] =>
    let w := widthOf bits
    some (loadingThen rt i operand w g memory fun v memory =>
      writing g memory w r (imul v (value.setWidth w.bits)))
  | .orRegReg, [.register r bits, .register s _] =>
    let w := widthOf bits
    some (writing g memory w r (or (readReg g w r) (readReg g w s)))
  | .orRegMem, [.register r bits, .memory operand] =>
    let w := widthOf bits
    some (loadingThen rt i operand w g memory fun v memory =>
      writing g memory w r (or (readReg g w r) v))
  | _, _ => none

end

/-! ## The divide helpers -/

/-- `divideUnsignedByte`. -/
def divideUnsignedByte (g : GuestState) (divisorValue : BitVec 64) : Except String GuestState :=
  let divisor := divisorValue.setWidth 8
  if divisor = 0 then .error "x86 divide error: byte divisor is zero"
  else
    let dividend := ((g.regs .rax).setWidth 16).toNat
    let quotient := dividend / divisor.toNat
    if 2 ^ 8 ≤ quotient then .error "x86 divide error: byte quotient overflows AL"
    else
      let remainder := BitVec.ofNat 16 (dividend % divisor.toNat)
      let result := BitVec.ofNat 16 quotient ||| remainder <<< 8
      .ok (g.setReg .rax ((g.regs .rax &&& ~~~(0xFFFF : BitVec 64)) ||| result.setWidth 64))

/-- `divideUnsignedDword` and `divideUnsignedQword`. -/
def divideUnsigned (w : Width) (zero overflow : String) (g : GuestState)
    (divisorValue : BitVec 64) : Except String GuestState :=
  let divisor := (divisorValue.setWidth w.bits).toNat
  if divisor = 0 then .error zero
  else
    let dividend := ((g.regs .rdx).setWidth w.bits).toNat * 2 ^ w.bits +
      ((g.regs .rax).setWidth w.bits).toNat
    let quotient := dividend / divisor
    if 2 ^ w.bits ≤ quotient then .error overflow
    else .ok ((g.setReg .rax (BitVec.ofNat 64 quotient)).setReg .rdx
      (BitVec.ofNat 64 (dividend % divisor)))

def divideUnsignedDword : GuestState → BitVec 64 → Except String GuestState :=
  divideUnsigned .i32 "x86 divide error: dword divisor is zero"
    "x86 divide error: dword quotient overflows EAX"

def divideUnsignedQword : GuestState → BitVec 64 → Except String GuestState :=
  divideUnsigned .i64 "x86 divide error: qword divisor is zero"
    "x86 divide error: qword quotient overflows RAX"

/-- `divideSignedDword`. -/
def divideSignedDword (g : GuestState) (divisorValue : BitVec 64) : Except String GuestState :=
  let divisor := (divisorValue.setWidth 32).toInt
  if divisor = 0 then .error "x86 divide error: signed dword divisor is zero"
  else
    let dividend := ((g.regs .rdx).setWidth 32 ++ (g.regs .rax).setWidth 32).toInt
    if dividend = -2 ^ 63 ∧ divisor = -1 then
      .error "x86 divide error: signed dword quotient overflows EAX"
    else
      let quotient := dividend.tdiv divisor
      if quotient < -2 ^ 31 ∨ 2 ^ 31 ≤ quotient then
        .error "x86 divide error: signed dword quotient overflows EAX"
      else
        .ok ((g.setReg .rax ((BitVec.ofInt 32 quotient).setWidth 64)).setReg .rdx
          ((BitVec.ofInt 32 (dividend.tmod divisor)).setWidth 64))

/-- The helper behind a divide opcode. -/
def divideHelper : Opcode → Option (GuestState → BitVec 64 → Except String GuestState)
  | .divideUnsignedByte => some divideUnsignedByte
  | .divideUnsignedDword => some divideUnsignedDword
  | .divideUnsignedQword => some divideUnsignedQword
  | .divideSignedDword => some divideSignedDword
  | _ => none

/-- The runtime with the divide helpers. A helper that throws leaves the guest state. -/
def withDivides {M E : Type} (rt : Runtime M E) (thrown : String → E) :
    Runtime M E :=
  { rt with
    helper := fun op o g memory =>
      match divideHelper op.opcode, o.lhs with
      | some f, some divisor =>
        match f g divisor with
        | .ok g' => (.ok (), g', memory)
        | .error message => (.error (thrown message), g, memory)
      | _, _ => rt.helper op o g memory }

/-! ## Lowering -/

section

variable (rip : GuestAddress)

/-- A register operand, with the byte of an 8-bit one masked. -/
def readMasked (reg : Register) (bits : Nat) (width : Width) : Lowering ValueId :=
  if bits = 8 then do
    let lhs ← readGuestRegister rip reg .i64
    let mask ← constant rip 0xFF .i64
    bitAnd rip lhs mask .i64
  else readGuestRegister rip reg width

/-- `RCX` masked to the count of a shift. -/
def countOfCl (mask : BitVec 64) : Lowering ValueId := do
  let count ← readGuestRegister rip .rcx .i64
  let countMask ← constant rip mask .i64
  bitAnd rip count countMask .i64

/-- `ShlRegCl`. -/
def lowerShlCl (reg : Register) (bits : Nat) : Lowering Unit := do
  let width := if bits = 8 then .i8 else if bits = 32 then .i32 else .i64
  let lhs ← readMasked rip reg bits width
  let maskedCount ← countOfCl rip (if bits = 64 then 0x3F else 0x1F)
  let result ← shiftLeftBy rip lhs maskedCount width
  writeGuestRegister rip reg result width
  updateFlags rip .updateShiftLeftFlags width lhs (some result) (some maskedCount)

/-- `immediate.value & (reg.width == 64 ? 0x3FU : 0x1FU)`. -/
def immediateMasked (bits : Nat) (immediate : BitVec 64) : Nat :=
  (immediate &&& if bits = 64 then 0x3F else 0x1F).toNat

/-- `ShrRegImm`. -/
def lowerShrImm (reg : Register) (bits : Nat) (immediate : BitVec 64) : Lowering Unit := do
  let width := if bits = 8 then .i8 else if bits = 64 then .i64 else .i32
  let lhs ← readMasked rip reg bits width
  let count := immediateMasked bits immediate
  let result ← shiftRightLogical rip lhs count width
  writeGuestRegister rip reg result width
  updateFlags rip .updateShiftRightFlags width lhs (some result) none count

/-- `ShrRegCl` and `SarRegCl`. -/
def lowerShiftRightCl (shift : ValueId → ValueId → Width → Lowering ValueId) (flags : Opcode)
    (reg : Register) (bits : Nat) : Lowering Unit := do
  let width := if bits = 32 then .i32 else .i64
  let lhs ← readGuestRegister rip reg width
  let maskedCount ← countOfCl rip (if bits = 32 then 0x1F else 0x3F)
  let result ← shift lhs maskedCount width
  writeGuestRegister rip reg result width
  updateFlags rip flags width lhs (some result) (some maskedCount)

/-- `SarRegImm`. -/
def lowerSarImm (reg : Register) (bits : Nat) (immediate : BitVec 64) : Lowering Unit := do
  raiseIf (bits != 32 && bits != 64) "internal decoder error: SAR width is not 32 or 64 bits"
  let width := if bits = 32 then .i32 else .i64
  let lhs ← readGuestRegister rip reg width
  let count := immediateMasked bits immediate
  let result ← shiftRightArithmetic rip lhs count width
  writeGuestRegister rip reg result width
  updateFlags rip .updateShiftRightArithmeticFlags width lhs (some result) none count

/-- A rotate by zero : only a 32-bit destination is written. -/
def lowerRotateNone (reg : Register) (bits : Nat) (width : Width) : Lowering Unit :=
  if bits = 32 then do
    let value ← readGuestRegister rip reg width
    writeGuestRegister rip reg value width
  else pure ()

/-- The operand of `RolRegImm`. -/
def readRotated (reg : Register) (bits : Nat) (width : Width) : Lowering ValueId :=
  if bits = 16 then do
    let unmasked ← readGuestRegister rip reg width
    let mask ← constant rip 0xFFFF width
    bitAnd rip unmasked mask width
  else readGuestRegister rip reg width

/-- `RolRegImm`. -/
def lowerRolImm (reg : Register) (bits : Nat) (immediate : BitVec 64) : Lowering Unit := do
  raiseIf (bits != 16 && bits != 32 && bits != 64) "internal decoder error: ROL width"
  let count := immediateMasked bits immediate % bits
  let width := if bits = 16 then .i16 else if bits = 32 then .i32 else .i64
  if count = 0 then lowerRotateNone rip reg bits width
  else do
    let original ← readRotated rip reg bits width
    let left ← shiftLeft rip original count width
    let right ← shiftRightLogical rip original (bits - count) width
    let combined ← bitOr rip left right width
    writeGuestRegister rip reg combined width
    updateFlags rip .updateRotateLeftFlags width combined none none count

/-- `RolRegCl`. -/
def lowerRolCl (reg : Register) (bits : Nat) : Lowering Unit := do
  raiseIf (bits != 32) "internal decoder error: ROL CL width"
  let original ← readGuestRegister rip reg .i32
  let cl ← readGuestRegister rip .rcx .i64
  let countMask ← constant rip 0x1F .i64
  let count ← bitAnd rip cl countMask .i64
  let left ← shiftLeftBy rip original count .i32
  let zero ← constant rip 0 .i64
  let negativeCount ← sub rip zero count .i64
  let rightCount ← bitAnd rip negativeCount countMask .i64
  let right ← shiftRightLogicalBy rip original rightCount .i32
  let result ← bitOr rip left right .i32
  writeGuestRegister rip reg result .i32
  updateFlags rip .updateRotateLeftFlags .i32 result (some count)

/-- `RorRegImm`. -/
def lowerRorImm (reg : Register) (bits : Nat) (immediate : BitVec 64) : Lowering Unit := do
  raiseIf (bits != 32 && bits != 64) "internal decoder error: ROR width"
  let count := immediateMasked bits immediate
  let width := if bits = 64 then .i64 else .i32
  if count = 0 then lowerRotateNone rip reg bits width
  else do
    let original ← readGuestRegister rip reg width
    let right ← shiftRightLogical rip original count width
    let left ← shiftLeft rip original (bits - count) width
    let result ← bitOr rip right left width
    writeGuestRegister rip reg result width
    updateFlags rip .updateRotateRightFlags width result none none count

/-- `RorRegCl`. -/
def lowerRorCl (reg : Register) (bits : Nat) : Lowering Unit := do
  raiseIf (bits != 64) "only 64-bit ROR by CL is implemented"
  let original ← readGuestRegister rip reg .i64
  let rawCount ← readGuestRegister rip .rcx .i64
  let countMask ← constant rip 0x3F .i64
  let count ← bitAnd rip rawCount countMask .i64
  let right ← shiftRightLogicalBy rip original count .i64
  let size ← constant rip 64 .i64
  let complement ← sub rip size count .i64
  let left ← shiftLeftBy rip original complement .i64
  let result ← bitOr rip right left .i64
  writeGuestRegister rip reg result .i64
  updateFlags rip .updateRotateRightFlags .i64 result (some count)

/-- `ShrdRegRegImm`. -/
def lowerShrd (destination source : Register) (immediate : BitVec 64) : Lowering Unit := do
  let original ← readGuestRegister rip destination .i64
  let high ← readGuestRegister rip source .i64
  let count := (immediate &&& 0x3F).toNat
  let result ← shiftRightDouble rip original high count .i64
  writeGuestRegister rip destination result .i64
  updateFlags rip .updateShiftRightDoubleFlags .i64 original (some result) none count

/-- The value of `ShldRegRegImm`. -/
def shldValue (original sourceValue : ValueId) (count : Nat) : Lowering ValueId :=
  if count ≠ 0 then do
    let left ← shiftLeft rip original count .i64
    let right ← shiftRightLogical rip sourceValue (64 - count) .i64
    bitOr rip left right .i64
  else pure original

/-- `ShldRegRegImm`. -/
def lowerShld (destination : Register) (destinationBits : Nat) (source : Register)
    (sourceBits : Nat) (immediate : BitVec 64) : Lowering Unit := do
  raiseIf (destinationBits != 64 || sourceBits != 64) "internal decoder error: SHLD width"
  let original ← readGuestRegister rip destination .i64
  let sourceValue ← readGuestRegister rip source .i64
  let count := (immediate &&& 0x3F).toNat
  let result ← shldValue rip original sourceValue count
  writeGuestRegister rip destination result .i64
  updateFlags rip .updateShiftLeftFlags .i64 original (some result) none count

/-- `BswapReg`. -/
def lowerBswap (reg : Register) (bits : Nat) : Lowering Unit := do
  raiseIf (bits != 32 && bits != 64) "internal decoder error: BSWAP width"
  let width := if bits = 32 then .i32 else .i64
  let original ← readGuestRegister rip reg width
  let result ← byteSwap rip original width
  writeGuestRegister rip reg result width

/-- `NotReg`. -/
def lowerNot (reg : Register) (bits : Nat) : Lowering Unit := do
  raiseIf (bits != 8 && bits != 32 && bits != 64) "only 8-, 32-, and 64-bit NOT are implemented"
  let width := if bits = 8 then .i8 else if bits = 32 then .i32 else .i64
  let valueWidth := if bits = 8 then .i64 else width
  let original ← readGuestRegister rip reg valueWidth
  let mask ← constant rip (if bits = 8 then 0xFF else if bits = 32 then 0xFFFFFFFF
    else BitVec.allOnes 64) valueWidth
  let result ← bitXor rip original mask valueWidth
  writeGuestRegister rip reg result width

/-- `NegReg`. -/
def lowerNeg (reg : Register) (bits : Nat) : Lowering Unit := do
  raiseIf (bits != 8 && bits != 16 && bits != 32 && bits != 64)
    "only 8-, 16-, 32-, and 64-bit NEG are implemented"
  let width := widthOf bits
  let zero ← constant rip 0 width
  let original ← readGuestRegister rip reg width
  let result ← sub rip zero original width
  writeGuestRegister rip reg result width
  updateFlags rip .updateSubFlags width zero (some original) (some result)

/-- The product of `MulReg` and `MulMem`. -/
def lowerProduct (bits : Nat) (lhs rhs : ValueId) : Lowering Unit :=
  if bits = 32 then do
    let product ← multiplyLow rip lhs rhs .i64
    let high ← shiftRightLogical rip product 32 .i64
    writeGuestRegister rip .rax product .i32
    writeGuestRegister rip .rdx high .i32
    updateFlags rip .updateMultiplyFlags .i32 high
  else do
    let low ← multiplyLow rip lhs rhs .i64
    let high ← multiplyHighUnsigned rip lhs rhs .i64
    writeGuestRegister rip .rax low .i64
    writeGuestRegister rip .rdx high .i64
    updateFlags rip .updateMultiplyFlags .i64 high

/-- `MulReg`. -/
def lowerMul (source : Register) (bits : Nat) : Lowering Unit := do
  raiseIf (bits != 32 && bits != 64) "only unsigned dword and qword MUL are implemented"
  let width := if bits = 32 then .i32 else .i64
  let lhs ← readGuestRegister rip .rax width
  let rhs ← readGuestRegister rip source width
  lowerProduct rip bits lhs rhs

/-- The product of `ImulReg` and `ImulMem`. -/
def lowerSignedProduct (lhs rhs : ValueId) : Lowering Unit := do
  let low ← multiplyLow rip lhs rhs .i64
  let high ← multiplyHighSigned rip lhs rhs .i64
  writeGuestRegister rip .rax low .i64
  writeGuestRegister rip .rdx high .i64
  updateFlags rip .updateSignedMultiplyFlags .i64 lhs (some rhs)

/-- `ImulReg`. -/
def lowerImul (source : Register) (bits : Nat) : Lowering Unit := do
  raiseIf (bits != 64) "only qword register IMUL is implemented"
  let lhs ← readGuestRegister rip .rax .i64
  let rhs ← readGuestRegister rip source .i64
  lowerSignedProduct rip lhs rhs

/-- The helper call of `DivReg` and `DivMem`. -/
def lowerDivide (bits : Nat) (divisor : ValueId) : Lowering Unit :=
  if bits = 8 then divide rip .divideUnsignedByte .i8 divisor
  else if bits = 32 then divide rip .divideUnsignedDword .i32 divisor
  else divide rip .divideUnsignedQword .i64 divisor

/-- `DivReg`. -/
def lowerDiv (source : Register) (bits : Nat) : Lowering Unit := do
  raiseIf (bits != 8 && bits != 32 && bits != 64)
    "only unsigned byte, dword, and qword register DIV are implemented"
  let divisor ← readGuestRegister rip source
    (if bits = 8 then .i8 else if bits = 32 then .i32 else .i64)
  lowerDivide rip bits divisor

/-- `IdivReg`. -/
def lowerIdiv (source : Register) (bits : Nat) : Lowering Unit := do
  raiseIf (bits != 32) "only signed dword register IDIV is implemented"
  let divisor ← readGuestRegister rip source .i32
  divide rip .divideSignedDword .i32 divisor

/-- The product of the `IMUL` forms with a destination. -/
def lowerTruncatedProduct (destination : Register) (width : Width) (lhs rhs : ValueId) :
    Lowering Unit := do
  let result ← multiplyLow rip lhs rhs width
  writeGuestRegister rip destination result width
  updateFlags rip .updateSignedMultiplyFlags width lhs (some rhs)

/-- `ImulRegReg`. -/
def lowerImulReg (destination : Register) (bits : Nat) (source : Register) (sourceBits : Nat) :
    Lowering Unit := do
  raiseIf (bits != sourceBits || (bits != 32 && bits != 64))
    "only matching 32-bit and 64-bit register IMUL are implemented"
  let width := if bits = 32 then .i32 else .i64
  let lhs ← readGuestRegister rip destination width
  let rhs ← readGuestRegister rip source width
  lowerTruncatedProduct rip destination width lhs rhs

/-- `ImulRegRegImm`. -/
def lowerImulImm (destination : Register) (bits : Nat) (source : Register) (sourceBits : Nat)
    (immediate : BitVec 64) : Lowering Unit := do
  raiseIf (bits != sourceBits || (bits != 32 && bits != 64))
    "only matching 32-bit and 64-bit immediate IMUL are implemented"
  let width := if bits = 32 then .i32 else .i64
  let lhs ← readGuestRegister rip source width
  let rhs ← constant rip immediate width
  lowerTruncatedProduct rip destination width lhs rhs

/-- The sum of the `OR` forms. -/
def lowerUnion (destination : Register) (width : Width) (lhs rhs : ValueId) : Lowering Unit := do
  let result ← bitOr rip lhs rhs width
  writeGuestRegister rip destination result width
  updateFlags rip .updateLogicFlags width result

/-- `OrRegReg`. -/
def lowerOrReg (destination : Register) (bits : Nat) (source : Register) : Lowering Unit := do
  let width := widthOf bits
  let lhs ← readGuestRegister rip destination width
  let rhs ← readGuestRegister rip source width
  lowerUnion rip destination width lhs rhs

end

section

variable (i : AluInstruction) (memory : MemoryOperand)

/-- The operands that `MUL`, `IMUL` and `DIV` of memory refuse. -/
def refusedBased : Bool :=
  !memory.hasBase || memory.ripRelative || memory.index.isSome || memory.segment != .none

/-- `MulMem`. -/
def lowerMulMem : Lowering Unit := do
  raiseIf ((memory.width != 32 && memory.width != 64) || refusedBased memory)
    "only based dword/qword memory MUL is implemented"
  let width := if memory.width = 32 then .i32 else .i64
  let address ← readGuestRegister i.address memory.base .i64
  let address ← addDisplacement i memory address
  let rhs ← loadGuest i.address address width
  let lhs ← readGuestRegister i.address .rax width
  lowerProduct i.address memory.width lhs rhs

/-- `ImulMem`. -/
def lowerImulMem : Lowering Unit := do
  raiseIf (memory.width != 64 || refusedBased memory) "only based qword memory IMUL is implemented"
  let address ← readGuestRegister i.address memory.base .i64
  let address ← addDisplacement i memory address
  let rhs ← loadGuest i.address address .i64
  let lhs ← readGuestRegister i.address .rax .i64
  lowerSignedProduct i.address lhs rhs

/-- `DivMem`. -/
def lowerDivMem : Lowering Unit := do
  raiseIf ((memory.width != 32 && memory.width != 64) || refusedBased memory)
    "only based dword and qword memory DIV is implemented"
  let address ← readGuestRegister i.address memory.base .i64
  let address ← addDisplacement i memory address
  if memory.width = 64 then do
    let divisor ← loadGuest i.address address .i64
    divide i.address .divideUnsignedQword .i64 divisor
  else do
    let divisor ← loadGuest i.address address .i32
    divide i.address .divideUnsignedDword .i32 divisor

/-- `ImulRegMem`. -/
def lowerImulRegMem (destination : Register) (bits : Nat) : Lowering Unit := do
  raiseIf ((bits != 32 && bits != 64) || (memory.width != 32 && memory.width != 64) ||
      (memory.width == 32 && bits != 32) ||
      (if memory.ripRelative then memory.hasBase || memory.index.isSome else !memory.hasBase))
    "only 32-bit and 64-bit register-from-memory IMUL are implemented"
  let width := if bits = 32 ∧ memory.width = 32 then .i32 else .i64
  let address ← baseAddress i memory
  let address ← addIndex i memory address
  let address ← addDisplacement i memory address
  let rhs ← loadGuest i.address address width
  let lhs ← readGuestRegister i.address destination width
  lowerTruncatedProduct i.address destination width lhs rhs

/-- `ImulRegMemImm`. -/
def lowerImulRegMemImm (destination : Register) (bits : Nat) (immediate : BitVec 64) :
    Lowering Unit := do
  raiseIf (bits != memory.width || (bits != 32 && bits != 64) || memory.index.isSome ||
    memory.segment != .none) "unsupported memory immediate IMUL operand shape"
  let width := if bits = 32 then .i32 else .i64
  let address ← baseAddress i memory
  let address ← addDisplacement i memory address
  let lhs ← loadGuest i.address address width
  let rhs ← constant i.address immediate width
  lowerTruncatedProduct i.address destination width lhs rhs

/-- `OrRegMem`. -/
def lowerOrMem (destination : Register) (bits : Nat) : Lowering Unit := do
  raiseIf (bits != memory.width || (bits != 8 && bits != 16 && bits != 32 && bits != 64))
    "only byte/word/dword/qword register-from-memory OR is implemented"
  let width := widthOf bits
  let address ← baseAddress i memory
  let address ← addIndex i memory address
  let address ← addDisplacement i memory address
  let rhs ← loadGuest i.address address width
  let lhs ← readGuestRegister i.address destination width
  lowerUnion i.address destination width lhs rhs

end

/-- The cases of `lowerToIr`. -/
def lowerAlu (i : AluInstruction) : Lowering Unit :=
  match i.opcode, i.operands with
  | .shlRegCl, [.register r bits] => lowerShlCl i.address r bits
  | .shrRegImm, [.register r bits, .immediate count _] => lowerShrImm i.address r bits count
  | .shrRegCl, [.register r bits] =>
    lowerShiftRightCl i.address (shiftRightLogicalBy i.address) .updateShiftRightFlags r bits
  | .sarRegCl, [.register r bits] =>
    lowerShiftRightCl i.address (shiftRightArithmeticBy i.address) .updateShiftRightArithmeticFlags
      r bits
  | .sarRegImm, [.register r bits, .immediate count _] => lowerSarImm i.address r bits count
  | .rolRegImm, [.register r bits, .immediate count _] => lowerRolImm i.address r bits count
  | .rolRegCl, [.register r bits] => lowerRolCl i.address r bits
  | .rorRegImm, [.register r bits, .immediate count _] => lowerRorImm i.address r bits count
  | .rorRegCl, [.register r bits] => lowerRorCl i.address r bits
  | .shrdRegRegImm, [.register r _, .register s _, .immediate count _] =>
    lowerShrd i.address r s count
  | .shldRegRegImm, [.register r bits, .register s sourceBits, .immediate count _] =>
    lowerShld i.address r bits s sourceBits count
  | .bswapReg, [.register r bits] => lowerBswap i.address r bits
  | .notReg, [.register r bits] => lowerNot i.address r bits
  | .negReg, [.register r bits] => lowerNeg i.address r bits
  | .mulReg, [.register r bits] => lowerMul i.address r bits
  | .imulReg, [.register r bits] => lowerImul i.address r bits
  | .mulMem, [.memory operand] => lowerMulMem i operand
  | .imulMem, [.memory operand] => lowerImulMem i operand
  | .divReg, [.register r bits] => lowerDiv i.address r bits
  | .divMem, [.memory operand] => lowerDivMem i operand
  | .idivReg, [.register r bits] => lowerIdiv i.address r bits
  | .imulRegReg, [.register r bits, .register s sourceBits] =>
    lowerImulReg i.address r bits s sourceBits
  | .imulRegMem, [.register r bits, .memory operand] => lowerImulRegMem i operand r bits
  | .imulRegRegImm, [.register r bits, .register s sourceBits, .immediate value _] =>
    lowerImulImm i.address r bits s sourceBits value
  | .imulRegMemImm, [.register r bits, .memory operand, .immediate value _] =>
    lowerImulRegMemImm i operand r bits value
  | .orRegReg, [.register r bits, .register s _] => lowerOrReg i.address r bits s
  | .orRegMem, [.register r bits, .memory operand] => lowerOrMem i operand r bits
  | _, _ => raise "internal decoder error"

/-- The operands that the decoder gives an opcode, where the lowering does not check them : the
widths of shifts, and the shapes of memory operands. -/
def Decoded (i : AluInstruction) : Prop :=
  match i.opcode, i.operands with
  | .shlRegCl, [.register _ bits] => bits ∈ [8, 32, 64]
  | .shrRegImm, [.register _ bits, .immediate _ _] => bits ∈ [8, 32, 64]
  | .shrRegCl, [.register _ bits] => bits ∈ [32, 64]
  | .sarRegCl, [.register _ bits] => bits ∈ [32, 64]
  | .shrdRegRegImm, [.register _ bits, .register _ _, .immediate _ _] => bits = 64
  | .mulMem, [.memory operand] => operand.Formed operand.width
  | .imulMem, [.memory operand] => operand.Formed operand.width
  | .divMem, [.memory operand] => operand.Formed operand.width
  | .imulRegMem, [.register _ bits, .memory operand] => operand.Formed bits
  | .imulRegMemImm, [.register _ _, .memory operand, .immediate _ _] =>
    operand.Formed operand.width
  | .orRegReg, [.register _ bits, .register _ _] => bits ∈ [8, 16, 32, 64]
  | .orRegMem, [.register _ _, .memory operand] => operand.Formed operand.width
  | _, _ => True

end X86

end Rosa
