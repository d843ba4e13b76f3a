import Rosa.IR.Flags

/-!
# The host instructions of the inline sequences

The methods of `arm64::Assembler` that the flag code, the condition tests and the direct
memory accesses of `arm64/Backend.cpp` call, with the effect AArch64 gives the word each
of them emits. A sequence is a list of instructions in program order. Inside a sequence
all branches are forward, so a taken branch is a label that is still looked for : the
instructions up to its `bind` are passed over, and a label that the sequence does not bind
is where the sequence leaves to.

`x0` points at the guest state. RFLAGS is the only field of it that these sequences read
or write.
-/

namespace Rosa.Arm64

/-- `arm64::XRegister`, by encoding. -/
abbrev XRegister := Fin 32

instance neZero_registers : NeZero 32 := ⟨by decide⟩

/-- `arm64::Label`, by number. -/
abbrev Label := Nat

/-- `arm64::BranchCondition`. -/
inductive BranchCondition
  | equal | notEqual | unsignedHigherOrSame | unsignedLower | negative | nonNegative
  | overflow | noOverflow | unsignedHigher | unsignedLowerOrSame | signedGreaterOrEqual
  | signedLess | signedGreater | signedLessOrEqual
  deriving DecidableEq, Repr

/-- The condition flags of the host. -/
structure Nzcv where
  n : Bool := false
  z : Bool := false
  c : Bool := false
  v : Bool := false
  deriving DecidableEq, Repr

/-- The flags `cmp lhs, rhs` leaves. The carry is the absence of a borrow. -/
def Nzcv.ofCompare (lhs rhs : BitVec 64) : Nzcv where
  n := (lhs - rhs).msb
  z := lhs - rhs == 0
  c := !lhs.ult rhs
  v := BitVec.ssubOverflow lhs rhs

/-- Whether a condition holds. -/
def BranchCondition.holds (f : Nzcv) : BranchCondition → Bool
  | equal => f.z
  | notEqual => !f.z
  | unsignedHigherOrSame => f.c
  | unsignedLower => !f.c
  | negative => f.n
  | nonNegative => !f.n
  | overflow => f.v
  | noOverflow => !f.v
  | unsignedHigher => f.c && !f.z
  | unsignedLowerOrSame => !(f.c && !f.z)
  | signedGreaterOrEqual => f.n == f.v
  | signedLess => !(f.n == f.v)
  | signedGreater => !f.z && f.n == f.v
  | signedLessOrEqual => !(!f.z && f.n == f.v)

/-- An assembler call. `ldrRflags` and `strRflags` are `ldr` and `str` at `x0` and the
offset of `rflags`. -/
inductive Instruction
  | movImmediate (destination : XRegister) (value : BitVec 64)
  | mov (destination source : XRegister)
  | bitAnd (destination lhs rhs : XRegister)
  | bitOr (destination lhs rhs : XRegister)
  | bitXor (destination lhs rhs : XRegister)
  | bitOrShiftedLeft (destination lhs rhs : XRegister) (shift : Nat)
  | bitXorShiftedRight (destination lhs rhs : XRegister) (shift : Nat)
  | lsrImmediate (destination source : XRegister) (shift : Nat)
  | add (destination lhs rhs : XRegister)
  | sub (destination lhs rhs : XRegister)
  | addImmediate (destination source : XRegister) (immediate : BitVec 12)
  | compare (lhs rhs : XRegister)
  | compareZero (value : XRegister)
  | conditionalSelectEqual (destination ifEqual ifNotEqual : XRegister)
  | ldrRflags (destination : XRegister)
  | strRflags (source : XRegister)
  | ldr8 (destination base : XRegister) (offset : BitVec 12)
  | bConditional (condition : BranchCondition) (label : Label)
  | b (label : Label)
  | cbz (value : XRegister) (label : Label)
  | cbnz (value : XRegister) (label : Label)
  | tbz (value : XRegister) (bit : Nat) (label : Label)
  | tbnz (value : XRegister) (bit : Nat) (label : Label)
  | bind (label : Label)
  deriving DecidableEq, Repr

/-- The host : its registers, its condition flags, the guest's RFLAGS and the bytes of
host memory. -/
structure Host where
  x : XRegister → BitVec 64
  nzcv : Nzcv
  rflags : BitVec 64
  bytes : BitVec 64 → BitVec 8

namespace Host

/-- The host with one register replaced. -/
def set (h : Host) (r : XRegister) (v : BitVec 64) : Host :=
  { h with x := Function.update h.x r v }

variable (h : Host) (r s : XRegister) (v : BitVec 64)

@[simp] theorem set_x : (h.set r v).x s = if s = r then v else h.x s := by
  simp [set, Function.update_apply]

@[simp] theorem set_nzcv : (h.set r v).nzcv = h.nzcv := rfl

@[simp] theorem set_rflags : (h.set r v).rflags = h.rflags := rfl

@[simp] theorem set_bytes : (h.set r v).bytes = h.bytes := rfl

end Host

/-- What an instruction other than a branch does, or where a taken branch goes. -/
def Instruction.execute (h : Host) : Instruction → Host × Option Label
  | movImmediate d value => (h.set d value, none)
  | mov d s => (h.set d (h.x s), none)
  | bitAnd d l r => (h.set d (h.x l &&& h.x r), none)
  | bitOr d l r => (h.set d (h.x l ||| h.x r), none)
  | bitXor d l r => (h.set d (h.x l ^^^ h.x r), none)
  | bitOrShiftedLeft d l r shift => (h.set d (h.x l ||| h.x r <<< shift), none)
  | bitXorShiftedRight d l r shift => (h.set d (h.x l ^^^ h.x r >>> shift), none)
  | lsrImmediate d s shift => (h.set d (h.x s >>> shift), none)
  | add d l r => (h.set d (h.x l + h.x r), none)
  | sub d l r => (h.set d (h.x l - h.x r), none)
  | addImmediate d s immediate => (h.set d (h.x s + immediate.setWidth 64), none)
  | compare l r => ({ h with nzcv := Nzcv.ofCompare (h.x l) (h.x r) }, none)
  | compareZero a => ({ h with nzcv := Nzcv.ofCompare (h.x a) 0 }, none)
  | conditionalSelectEqual d l r => (h.set d (if h.nzcv.z then h.x l else h.x r), none)
  | ldrRflags d => (h.set d h.rflags, none)
  | strRflags s => ({ h with rflags := h.x s }, none)
  | ldr8 d base offset => (h.set d ((h.bytes (h.x base + offset.setWidth 64)).setWidth 64), none)
  | bConditional c label => (h, if c.holds h.nzcv then some label else none)
  | b label => (h, some label)
  | cbz r label => (h, if h.x r == 0 then some label else none)
  | cbnz r label => (h, if h.x r != 0 then some label else none)
  | tbz r bit label => (h, if (h.x r).getLsbD bit then none else some label)
  | tbnz r bit label => (h, if (h.x r).getLsbD bit then some label else none)
  | bind _ => (h, none)

/-- One instruction, with the label a taken branch still looks for. -/
def advance : Host × Option Label → Instruction → Host × Option Label
  | (h, none), i => i.execute h
  | (h, some label), .bind l => (h, if l = label then none else some label)
  | (h, some label), _ => (h, some label)

/-- A sequence from its first instruction. -/
def run (code : List Instruction) (h : Host) : Host × Option Label := code.foldl advance (h, none)

@[simp] theorem run_nil (h : Host) : run [] h = (h, none) := rfl

theorem run_append {a : List Instruction} {h h' : Host} (ha : run a h = (h', none))
    (b : List Instruction) : run (a ++ b) h = run b h' := by
  simp only [run] at ha
  simp only [run, List.foldl_append, ha]

theorem run_append_left {a : List Instruction} {h h' : Host} {label : Label}
    (ha : run a h = (h', some label)) (b : List Instruction) :
    run (a ++ b) h = b.foldl advance (h', some label) := by
  simp only [run] at ha
  simp only [run, List.foldl_append, ha]

theorem run_cons {i : Instruction} {h h' : Host} (hi : i.execute h = (h', none))
    (code : List Instruction) : run (i :: code) h = run code h' := by
  simp only [run, List.foldl_cons, advance, hi]

/-! ## Registers of values -/

/-- The registers `hostRegister` returns : those `allocateHostRegisters` hands out, the
pinned loop constant's, and the pin candidates of the guest registers. -/
def valueRegisters : List XRegister := [8, 9, 10, 11, 12, 13, 14, 15, 24, 26, 27, 28, 5, 6, 7, 30]

/-- A register that holds an IR value. -/
abbrev ValueRegister := { r : XRegister // r ∈ valueRegisters }

/-- The scratch registers of the inline sequences. -/
def scratchRegisters : List XRegister := [0, 1, 2, 3, 4, 16, 17]

theorem ValueRegister.ne_scratch (r : ValueRegister) {s : XRegister} (hs : s ∈ scratchRegisters) :
    r.1 ≠ s := by
  obtain ⟨r, hr⟩ := r
  rintro rfl
  have hdisjoint : ∀ q ∈ valueRegisters, q ∉ scratchRegisters := by decide
  exact hdisjoint _ hr hs

end Rosa.Arm64
