import Rosa.IR.Builder
import Rosa.Logic.Codec

/-!
# Decoded instructions and their memory operands

The records of `x86/Instruction.h`, the fields of an encoding, and the memory operand that the
architecture gives to a ModRM byte. A decoder works on the bytes of one instruction, with
offsets from its first byte; it checks the size before it looks at a byte, so that `byteAt` is
never asked for one that is not there.

An operand decoder of the source either reads a SIB byte (`decodeSibOperand`) or refuses it
(`decodeBasedOperand`). Both accept less than the architecture and agree with it on what they
accept.
-/

namespace Rosa

namespace X86

/-! ## Instructions -/

/-- `Segment`. -/
inductive Segment
  | none | gs
  deriving DecidableEq, Repr

/-- `MemoryOperand`. The displacement is a signed 64-bit number. -/
structure MemoryOperand where
  base : Register
  displacement : BitVec 64
  width : Nat
  index : Option Register := none
  scale : Nat := 1
  hasBase : Bool := true
  ripRelative : Bool := false
  segment : Segment := .none
  deriving DecidableEq, Repr

/-- `Operand`. -/
inductive Operand
  | register (reg : Register) (width : Nat)
  | immediate (value : BitVec 64) (width : Nat)
  | memory (operand : MemoryOperand)
  | xmm (reg : XmmRegister)
  deriving DecidableEq, Repr

/-- `DecodedInstruction`, for the opcodes `O`. -/
structure DecodedInstruction (O : Type) where
  address : GuestAddress
  opcode : O
  bytes : List Byte
  length : Nat
  operands : List Operand
  deriving DecidableEq, Repr

/-! ## The fields of an encoding -/

/-- `code[index]`. -/
def byteAt (code : List Byte) (index : Nat) : Byte := code.getD index 0

/-- The byte is a REX prefix. -/
def isRex (byte : Byte) : Bool := decide (0x40 ≤ byte.toNat ∧ byte.toNat ≤ 0x4F)

def rexW (rex : Byte) : Bool := rex.getLsbD 3

def rexR (rex : Byte) : Bool := rex.getLsbD 2

def rexX (rex : Byte) : Bool := rex.getLsbD 1

def rexB (rex : Byte) : Bool := rex.getLsbD 0

/-- `(modrm >> 6U) & 0x3U`. -/
def modeOf (modrm : Byte) : Nat := modrm.toNat / 64

/-- `(modrm >> 3U) & 0x7U`. -/
def middleOf (modrm : Byte) : Nat := modrm.toNat / 8 % 8

/-- `modrm & 0x7U`. -/
def rmOf (modrm : Byte) : Nat := modrm.toNat % 8

/-- Three bits of an encoding with their REX bit. -/
def extended (lowBits : Nat) (rexBit : Bool) : Nat := lowBits + if rexBit then 8 else 0

/-- `decodeRegister`. -/
def decodeRegister (lowBits : Nat) (rexBit : Bool) : Register :=
  (Register.ofIndex? (extended lowBits rexBit)).getD .rax

/-- The XMM register of an encoding. -/
def decodeXmmRegister (lowBits : Nat) (rexBit : Bool) : XmmRegister :=
  ⟨extended lowBits rexBit % 16, Nat.mod_lt _ (by decide)⟩

/-- `readI32` of the bytes at an offset, as a 64-bit number. -/
def readI32 (code : List Byte) (offset : Nat) : BitVec 64 :=
  (ofLittleEndian 32 4 (code.drop offset)).signExtend 64

/-- `std::bit_cast<std::int8_t>`, as a 64-bit number. -/
def readI8 (code : List Byte) (offset : Nat) : BitVec 64 := (byteAt code offset).signExtend 64

/-- `relativeTarget`. -/
def relativeTarget (address : GuestAddress) (length : Nat) (displacement : BitVec 64) :
    Except String GuestAddress :=
  if 2 ^ 64 ≤ address.toNat + length then
    .error "x86 control-transfer fallthrough address overflows"
  else
    let fallthrough := address.toNat + length
    if 0 ≤ displacement.toInt then
      if 2 ^ 64 ≤ fallthrough + displacement.toInt.toNat then
        .error "x86 relative branch target overflows"
      else .ok (BitVec.ofNat 64 (fallthrough + displacement.toInt.toNat))
    else
      if fallthrough < (-displacement.toInt).toNat then
        .error "x86 relative branch target underflows"
      else .ok (BitVec.ofNat 64 (fallthrough - (-displacement.toInt).toNat))

/-! ## The operand of the architecture -/

/-- A memory operand : what is added up. -/
structure Addressing where
  relative : Bool
  base : Option Register
  index : Option (Register × Nat)
  displacement : BitVec 64
  deriving DecidableEq, Repr

/-- The address, with the address of the next instruction. -/
def Addressing.effective (a : Addressing) (next : BitVec 64) (regs : Register → BitVec 64) :
    BitVec 64 :=
  (if a.relative then next else (a.base.map regs).getD 0) +
    (a.index.map fun i => regs i.1 * BitVec.ofNat 64 i.2).getD 0 + a.displacement

/-- The displacement of a mode, and where it ends. -/
def displacementAt (code : List Byte) (cursor mode : Nat) (forced : Bool) :
    Option (BitVec 64 × Nat) :=
  if mode = 1 then if cursor < code.length then some (readI8 code cursor, cursor + 1) else none
  else if mode = 2 ∨ forced = true then
    if cursor + 4 ≤ code.length then some (readI32 code cursor, cursor + 4) else none
  else some (0, cursor)

/-- The memory operand of a ModRM byte whose SIB and displacement bytes start at `cursor`, and
where it ends. -/
def operandAt (code : List Byte) (cursor : Nat) (rex modrm : Byte) : Option (Addressing × Nat) :=
  let mode := modeOf modrm
  if mode = 3 then none
  else if rmOf modrm = 4 then
    if cursor < code.length then
      let sib := byteAt code cursor
      let noBase := decide (mode = 0 ∧ rmOf sib = 5)
      let indexEncoding := extended (middleOf sib) (rexX rex)
      (displacementAt code (cursor + 1) mode noBase).map fun d =>
        ({ relative := false
           base := if noBase then none else some (decodeRegister (rmOf sib) (rexB rex))
           index := if indexEncoding = 4 then none
             else some (decodeRegister (middleOf sib) (rexX rex), 2 ^ modeOf sib)
           displacement := d.1 }, d.2)
    else none
  else if mode = 0 ∧ rmOf modrm = 5 then
    (displacementAt code cursor mode true).map fun d =>
      ({ relative := true, base := none, index := none, displacement := d.1 }, d.2)
  else
    (displacementAt code cursor mode false).map fun d =>
      ({ relative := false, base := some (decodeRegister (rmOf modrm) (rexB rex)), index := none
         displacement := d.1 }, d.2)

/-! ## The operand decoders -/

/-- The operand of a decoded record. -/
def MemoryOperand.addressing (operand : MemoryOperand) : Addressing where
  relative := operand.ripRelative
  base := if operand.hasBase then some operand.base else none
  index := operand.index.map fun r => (r, operand.scale)
  displacement := operand.displacement

/-- The texts of an operand decoder's errors. -/
structure OperandMessages where
  sib : String
  noBase : String
  rexX : Option String
  disp8 : String
  disp32 : String
  ripDisp32 : String

/-- The displacement as the decoders read it. -/
def decodeDisplacement (messages : OperandMessages) (code : List Byte) (cursor mode : Nat)
    (ripRelative : Bool) : Except String (BitVec 64 × Nat) :=
  if mode = 1 then
    if cursor < code.length then .ok (readI8 code cursor, cursor + 1) else .error messages.disp8
  else if mode = 2 ∨ ripRelative = true then
    if code.length - cursor < 4 then
      .error (if ripRelative then messages.ripDisp32 else messages.disp32)
    else .ok (readI32 code cursor, cursor + 4)
  else .ok (0, cursor)

/-- The base encoding, index, scale and the end of the SIB byte. -/
def decodeSib (messages : OperandMessages) (code : List Byte) (cursor : Nat) (rex modrm : Byte) :
    Except String (Nat × Option Register × Nat × Nat) :=
  if rmOf modrm = 4 then
    if code.length ≤ cursor then .error messages.sib
    else
      let sib := byteAt code cursor
      if modeOf modrm = 0 ∧ rmOf sib = 5 then .error messages.noBase
      else if middleOf sib ≠ 4 ∨ rexX rex = true then
        .ok (rmOf sib, some (decodeRegister (middleOf sib) (rexX rex)), 2 ^ modeOf sib, cursor + 1)
      else .ok (rmOf sib, none, 1, cursor + 1)
  else
    match messages.rexX with
    | some message =>
      if ¬(modeOf modrm = 0 ∧ rmOf modrm = 5) ∧ rexX rex = true then .error message
      else .ok (rmOf modrm, none, 1, cursor)
    | none => .ok (rmOf modrm, none, 1, cursor)

/-- The memory operand as the decoders with a SIB byte read it, from the byte after ModRM. -/
def decodeSibOperand (messages : OperandMessages) (code : List Byte) (cursor : Nat)
    (rex modrm : Byte) (width : Nat) : Except String (MemoryOperand × Nat) := do
  let ripRelative := decide (modeOf modrm = 0 ∧ rmOf modrm = 5)
  let (baseEncoding, index, scale, cursor) ← decodeSib messages code cursor rex modrm
  let (displacement, cursor) ←
    decodeDisplacement messages code cursor (modeOf modrm) ripRelative
  if ripRelative then
    return ({ base := .rax, displacement := displacement, width := width, hasBase := false
              ripRelative := true }, cursor)
  else
    return ({ base := decodeRegister baseEncoding (rexB rex), displacement := displacement
              width := width, index := index, scale := scale }, cursor)

/-- The memory operand as the decoders without a SIB byte read it. With a RIP-relative operand
they also ask that its address does not wrap. -/
def decodeBasedOperand (messages : OperandMessages) (code : List Byte) (address : GuestAddress)
    (cursor : Nat) (rex modrm : Byte) (width : Nat) : Except String (MemoryOperand × Nat) := do
  let mode := modeOf modrm
  let ripRelative := decide (mode = 0 ∧ rmOf modrm = 5 ∧ rexB rex = false)
  if rmOf modrm = 4 ∨ (mode = 0 ∧ rmOf modrm = 5 ∧ rexB rex = true) then throw messages.noBase
  let (displacement, cursor) ← decodeDisplacement messages code cursor mode ripRelative
  if ripRelative then
    let _ ← relativeTarget address cursor displacement
    return ({ base := .rax, displacement := displacement, width := width, hasBase := false
              ripRelative := true }, cursor)
  else
    return ({ base := decodeRegister (rmOf modrm) (rexB rex), displacement := displacement
              width := width }, cursor)

/-! ## What they accept -/

theorem bind_ok_iff {α β : Type} {x : Except String α} {f : α → Except String β} {b : β} :
    (x >>= f) = .ok b ↔ ∃ a, x = .ok a ∧ f a = .ok b := by
  cases x with
  | error e => simp [bind, Except.bind]
  | ok a => simp [bind, Except.bind]

theorem decodeDisplacement_ok {messages : OperandMessages} {code : List Byte}
    {cursor mode : Nat} {ripRelative : Bool} {d : BitVec 64} {e : Nat}
    (h : decodeDisplacement messages code cursor mode ripRelative = .ok (d, e)) :
    displacementAt code cursor mode ripRelative = some (d, e) := by
  unfold decodeDisplacement at h
  unfold displacementAt
  split at h
  · next h1 =>
    rw [if_pos h1]
    split at h
    · next hlt =>
      rw [if_pos hlt]
      exact congrArg some (Except.ok.inj h)
    · cases h
  · next h1 =>
    rw [if_neg h1]
    split at h
    · next h2 =>
      rw [if_pos h2]
      split at h
      · cases h
      · next hlt =>
        rw [if_pos (by omega)]
        exact congrArg some (Except.ok.inj h)
    · next h2 =>
      rw [if_neg h2]
      exact congrArg some (Except.ok.inj h)

/-- The operand of a form that the lowering takes : RIP-relative alone, or with a base and an
index with one of the four scales. -/
structure MemoryOperand.Formed (operand : MemoryOperand) (width : Nat) : Prop where
  width : operand.width = width
  segment : operand.segment = .none
  based : operand.hasBase = !operand.ripRelative
  alone : operand.ripRelative = true → operand.index = none
  scale : operand.scale ∈ [1, 2, 4, 8]

theorem middleOf_lt (byte : Byte) : middleOf byte < 8 := Nat.mod_lt _ (by decide)

theorem modeOf_lt (byte : Byte) : modeOf byte < 4 := by
  have := byte.isLt
  unfold modeOf
  omega

theorem two_pow_mem (byte : Byte) : 2 ^ modeOf byte ∈ [1, 2, 4, 8] := by
  have := modeOf_lt byte
  interval_cases modeOf byte <;> simp

/-- The index encoding 4 without REX.X is the only one that names no index. -/
theorem extended_eq_four {byte : Byte} {bit : Bool} :
    extended (middleOf byte) bit = 4 ↔ ¬(middleOf byte ≠ 4 ∨ bit = true) := by
  have := middleOf_lt byte
  cases bit <;> simp [extended]

theorem decodeSibOperand_ok {messages : OperandMessages} {code : List Byte} {cursor : Nat}
    {rex modrm : Byte} {width : Nat} {operand : MemoryOperand} {e : Nat} (hmode : modeOf modrm ≠ 3)
    (h : decodeSibOperand messages code cursor rex modrm width = .ok (operand, e)) :
    operandAt code cursor rex modrm = some (operand.addressing, e) ∧ operand.Formed width := by
  unfold decodeSibOperand at h
  dsimp only at h
  obtain ⟨⟨baseEncoding, index, scale, c⟩, hsib, hrest⟩ := bind_ok_iff.mp h
  obtain ⟨⟨d, c'⟩, hdisp, hend⟩ := bind_ok_iff.mp hrest
  clear h hrest
  have hd := decodeDisplacement_ok hdisp
  dsimp only at hend hd
  unfold decodeSib at hsib
  unfold operandAt
  dsimp only
  rw [if_neg hmode]
  by_cases hrm : rmOf modrm = 4
  · rw [if_pos hrm] at hsib ⊢
    have hrip : ¬(modeOf modrm = 0 ∧ rmOf modrm = 5) := by omega
    rw [decide_eq_false hrip] at hend hd
    rw [if_neg Bool.false_ne_true] at hend
    obtain ⟨rfl, rfl⟩ := Prod.mk.inj (Except.ok.inj hend)
    split at hsib
    · cases hsib
    · next hlt =>
      dsimp only at hsib
      rw [if_pos (by omega)]
      split at hsib
      · cases hsib
      · next hbase =>
        have hno : decide (modeOf modrm = 0 ∧ rmOf (byteAt code cursor) = 5) = false :=
          decide_eq_false hbase
        split at hsib
        · next hindex =>
          simp only [Except.ok.injEq, Prod.mk.injEq] at hsib
          obtain ⟨rfl, rfl, rfl, rfl⟩ := hsib
          refine ⟨?_, rfl, rfl, rfl, (fun h => nomatch h), two_pow_mem _⟩
          rw [hno, hd]
          simp [MemoryOperand.addressing, mt extended_eq_four.mp (not_not.mpr hindex)]
        · next hindex =>
          simp only [Except.ok.injEq, Prod.mk.injEq] at hsib
          obtain ⟨rfl, rfl, rfl, rfl⟩ := hsib
          refine ⟨?_, rfl, rfl, rfl, (fun h => nomatch h), by simp⟩
          rw [hno, hd]
          simp [MemoryOperand.addressing, extended_eq_four.mpr hindex]
  · rw [if_neg hrm] at hsib ⊢
    have hplain : (baseEncoding, index, scale, c) = (rmOf modrm, none, 1, cursor) := by
      split at hsib
      · split at hsib
        · cases hsib
        · exact (Except.ok.inj hsib).symm
      · exact (Except.ok.inj hsib).symm
    simp only [Prod.mk.injEq] at hplain
    obtain ⟨rfl, rfl, rfl, rfl⟩ := hplain
    by_cases hrip : modeOf modrm = 0 ∧ rmOf modrm = 5
    · rw [decide_eq_true hrip] at hend hd
      rw [if_pos rfl] at hend
      obtain ⟨rfl, rfl⟩ := Prod.mk.inj (Except.ok.inj hend)
      rw [if_pos hrip, hd]
      exact ⟨rfl, rfl, rfl, rfl, fun _ => rfl, by simp⟩
    · rw [decide_eq_false hrip] at hend hd
      rw [if_neg Bool.false_ne_true] at hend
      obtain ⟨rfl, rfl⟩ := Prod.mk.inj (Except.ok.inj hend)
      rw [if_neg hrip, hd]
      exact ⟨rfl, rfl, rfl, rfl, fun _ => rfl, by simp⟩

theorem decodeBasedOperand_ok {messages : OperandMessages} {code : List Byte}
    {address : GuestAddress} {cursor : Nat} {rex modrm : Byte} {width : Nat}
    {operand : MemoryOperand} {e : Nat} (hmode : modeOf modrm ≠ 3)
    (h : decodeBasedOperand messages code address cursor rex modrm width = .ok (operand, e)) :
    operandAt code cursor rex modrm = some (operand.addressing, e) ∧ operand.Formed width ∧
      operand.index = none := by
  unfold decodeBasedOperand at h
  dsimp only at h
  split at h
  · cases h
  · next hrefused =>
    push Not at hrefused
    obtain ⟨⟨d, c⟩, hdisp, h⟩ := bind_ok_iff.mp h
    have hd := decodeDisplacement_ok hdisp
    dsimp only at h hd
    unfold operandAt
    dsimp only
    rw [if_neg hmode, if_neg hrefused.1]
    by_cases hrip : modeOf modrm = 0 ∧ rmOf modrm = 5
    · have hb : rexB rex = false := by
        simpa using hrefused.2 hrip.1 hrip.2
      rw [decide_eq_true ⟨hrip.1, hrip.2, hb⟩] at h hd
      rw [if_pos rfl] at h
      obtain ⟨_, -, h⟩ := bind_ok_iff.mp h
      obtain ⟨rfl, rfl⟩ := Prod.mk.inj (Except.ok.inj h)
      rw [if_pos hrip, hd]
      exact ⟨rfl, ⟨rfl, rfl, rfl, fun _ => rfl, by simp⟩, rfl⟩
    · rw [decide_eq_false fun hc => hrip ⟨hc.1, hc.2.1⟩] at h hd
      rw [if_neg Bool.false_ne_true] at h
      obtain ⟨rfl, rfl⟩ := Prod.mk.inj (Except.ok.inj h)
      rw [if_neg hrip, hd]
      exact ⟨rfl, ⟨rfl, rfl, rfl, fun _ => rfl, by simp⟩, rfl⟩

end X86

end Rosa
