import Rosa.X86.Instruction

/-!
# Addresses of memory operands

The address arithmetic that the cases of `x86/Lowering.cpp` repeat : the next instruction or a
base, an index shifted by its scale, a displacement unless it is zero. A case puts these parts
together as it needs them; `emits_indexed` and `emits_based` say that the address it gets is the
one of its operand.
-/

namespace Rosa

namespace X86

open Lowering

/-! ## Lowering -/

/-- `std::countr_zero` of a byte. -/
def countrZero (v : Nat) : Nat := ((List.range 8).find? v.testBit).getD 8

section

variable {O : Type} (i : DecodedInstruction O) (memory : MemoryOperand)

/-- The base of an address : the next instruction or a register. -/
def baseAddress : Lowering ValueId :=
  if memory.ripRelative then constant i.address (i.address + BitVec.ofNat 64 i.length) .i64
  else readGuestRegister i.address memory.base .i64

/-- The index shifted by its scale. -/
def scaledIndex (index : Register) : Lowering ValueId := do
  let value ← readGuestRegister i.address index .i64
  if memory.scale ≠ 1 then shiftLeft i.address value (countrZero memory.scale) .i64 else pure value

/-- The address with its index. -/
def addIndex (address : ValueId) : Lowering ValueId :=
  match memory.index with
  | none => pure address
  | some index => do
    let value ← scaledIndex i memory index
    add i.address address value .i64

/-- The address with its displacement. -/
def addDisplacement (address : ValueId) : Lowering ValueId :=
  if memory.displacement ≠ 0 then do
    let displacement ← constant i.address memory.displacement .i64
    add i.address address displacement .i64
  else pure address

end

/-! ## The lowering computes the address -/

section

variable {M E α O : Type} {rt : Runtime M E} {n : Nat} {m : Machine M} {i : DecodedInstruction O}
variable {operand : MemoryOperand} {width : Nat}

/-- What an address starts from. -/
def baseValue {O : Type} (i : DecodedInstruction O) (operand : MemoryOperand) (g : GuestState) : BitVec 64 :=
  if operand.ripRelative then i.address + BitVec.ofNat 64 i.length else g.regs operand.base

theorem computes_baseAddress :
    Computes rt (baseAddress i operand) n m (baseValue i operand m.guest) := by
  unfold baseAddress baseValue
  split
  · exact computes_constant _ _
  · exact computes_readGuestRegister _ _ .i64

theorem shiftLeft_countrZero {scale : Nat} (h : scale ∈ [1, 2, 4, 8]) (v : BitVec 64) :
    v <<< countrZero scale = v * BitVec.ofNat 64 scale ∧ countrZero scale < 64 := by
  simp only [List.mem_cons, List.not_mem_nil, or_false] at h
  rcases h with rfl | rfl | rfl | rfl
  · exact ⟨(BitVec.shiftLeft_eq_mul_twoPow v 0).trans rfl, by decide⟩
  · exact ⟨(BitVec.shiftLeft_eq_mul_twoPow v 1).trans rfl, by decide⟩
  · exact ⟨(BitVec.shiftLeft_eq_mul_twoPow v 2).trans rfl, by decide⟩
  · exact ⟨(BitVec.shiftLeft_eq_mul_twoPow v 3).trans rfl, by decide⟩

theorem computes_scaledIndex (hs : operand.scale ∈ [1, 2, 4, 8]) (r : Register) :
    Computes rt (scaledIndex i operand r) n m
      (m.guest.regs r * BitVec.ofNat 64 operand.scale) := by
  obtain ⟨hshift, hlt⟩ := shiftLeft_countrZero hs (m.guest.regs r)
  refine Computes.bind (computes_readGuestRegister _ r .i64) fun a n' m' h => ?_
  split
  · have : Computes rt (shiftLeft i.address a (countrZero operand.scale) .i64) n' m' _ :=
      computes_shiftLeft i.address a hlt
    rwa [h.value, show Width.hostResult .i64 (m.guest.regs r) = m.guest.regs r from rfl,
      hshift] at this
  · next hone =>
    refine Computes.pure h.lt ?_
    rw [h.value, not_not.mp hone]
    exact (BitVec.mul_one _).symm

/-- What the index adds. -/
def indexValue (operand : MemoryOperand) (g : GuestState) : BitVec 64 :=
  (operand.index.map fun r => g.regs r * BitVec.ofNat 64 operand.scale).getD 0

theorem computes_addIndex (hs : operand.scale ∈ [1, 2, 4, 8]) {a : ValueId} (ha : a < n) :
    Computes rt (addIndex i operand a) n m (m.values a + indexValue operand m.guest) := by
  unfold addIndex indexValue
  split
  · next hnone =>
    refine Computes.pure ha ?_
    rw [hnone]
    exact (BitVec.add_zero _).symm
  · next r hsome =>
    refine Computes.bind (computes_scaledIndex hs r) fun b n' m' h => ?_
    have : Computes rt (add i.address a b .i64) n' m' _ := computes_add i.address a b
    rw [h.keeps a ha, h.value] at this
    rw [hsome]
    exact this

theorem computes_addDisplacement {a : ValueId} (ha : a < n) :
    Computes rt (addDisplacement i operand a) n m (m.values a + operand.displacement) := by
  unfold addDisplacement
  split
  · refine Computes.bind (computes_constant _ _) fun b n' m' h => ?_
    have : Computes rt (add i.address a b .i64) n' m' _ := computes_add i.address a b
    rwa [h.keeps a ha, h.value] at this
  · next hzero =>
    refine Computes.pure ha ?_
    rw [not_not.mp hzero]
    exact (BitVec.add_zero _).symm

/-- The address of the operand, with the next instruction after `i`. -/
def addressOf {O : Type} (i : DecodedInstruction O) (operand : MemoryOperand) (g : GuestState) : BitVec 64 :=
  operand.addressing.effective (i.address + BitVec.ofNat 64 i.length) g.regs

theorem addressOf_eq (hf : operand.Formed width) (g : GuestState) :
    addressOf i operand g = baseValue i operand g + indexValue operand g + operand.displacement := by
  unfold addressOf Addressing.effective MemoryOperand.addressing baseValue indexValue
  dsimp only
  rw [hf.based]
  cases operand.ripRelative <;> cases operand.index <;> rfl

variable {Q : α → Nat → Machine M → Prop} {F : Outcome M E → Prop}

theorem emits_indexed {base : Lowering ValueId} (hf : operand.Formed width)
    (hbase : Computes rt base n m (baseValue i operand m.guest)) {f : ValueId → Lowering α}
    (h : ∀ a n' m', Computed m n (addressOf i operand m.guest) a n' m' →
      Emits rt (f a) n' m' Q F) :
    Emits rt (base >>= fun a => addIndex i operand a >>= fun a =>
      addDisplacement i operand a >>= f) n m Q F := by
  refine hbase.then fun a n1 m1 h1 => (computes_addIndex hf.scale h1.lt).then fun b n2 m2 h2 =>
    (computes_addDisplacement h2.lt).then fun c n3 m3 h3 => h c n3 m3 ?_
  have := (h1.trans h2).trans h3
  rwa [h2.value, h1.value, h1.guest, ← addressOf_eq hf] at this

theorem emits_based {base : Lowering ValueId} (hf : operand.Formed width)
    (hx : operand.index = none) (hbase : Computes rt base n m (baseValue i operand m.guest))
    {f : ValueId → Lowering α}
    (h : ∀ a n' m', Computed m n (addressOf i operand m.guest) a n' m' →
      Emits rt (f a) n' m' Q F) :
    Emits rt (base >>= fun a => addDisplacement i operand a >>= f) n m Q F := by
  refine hbase.then fun a n1 m1 h1 => (computes_addDisplacement h1.lt).then fun c n3 m3 h3 =>
    h c n3 m3 ?_
  have hindex : indexValue operand m.guest = 0 := by
    unfold indexValue
    rw [hx]
    rfl
  have := h1.trans h3
  rw [h1.value] at this
  rw [addressOf_eq hf, hindex]
  rwa [show baseValue i operand m.guest + 0 = baseValue i operand m.guest from BitVec.add_zero _]

end

end X86

end Rosa
