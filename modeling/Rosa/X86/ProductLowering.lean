import Rosa.X86.ShiftLowering

/-!
# Multiplications, divisions and memory operands

The cases of `MUL`, `IMUL`, `DIV`, `IDIV` and `OR`, with their operand in a register or in memory.
The halves of a product are the ones of the exact product; a divide helper throws where the
quotient does not fit; a load that faults ends the instruction with the guest state as it was
(`reaches_loading`).
-/

namespace Rosa

namespace X86

open Lowering

/-! ### Multiplications -/

section

variable {M E : Type} {rt : Runtime M E} {rip : GuestAddress} {n : Nat} {m : Machine M}
variable {r s : Register} {bits : Nat} {w : Width} {g : GuestState} {memory : M}

/-- Writes of both halves of a product and a flag update end an instruction. -/
theorem reaches_pair {a b c : ValueId} {d : Option ValueId} {opcode : Opcode} {wf : Width}
    {low high : BitVec w.bits} {effects : FlagEffects} {rflags : BitVec 64} (hg : m.guest = g)
    (hm : m.memory = memory) (hlow : (m.values a).setWidth w.bits = low)
    (hhigh : (m.values b).setWidth w.bits = high) (hk : opcode.kind = .flags)
    (hf : flagUpdate { opcode := opcode, width := wf, guestRip := rip, lhs := some c, rhs := d
                       immediate := BitVec.ofNat 64 (0 % 256) }
      ⟨some (m.values c), d.map m.values, none⟩ g.rflags = some rflags)
    (he : effects.Meets g.rflags rflags) :
    Reaches rt (writeGuestRegister rip .rax a w >>= fun _ =>
      writeGuestRegister rip .rdx b w >>= fun _ => updateFlags rip opcode wf c d) n m g
      (.done (writeReg (writeReg g w .rax low) w .rdx high) effects memory) := by
  subst hg
  refine Emits.bind (emits_writeGuestRegister _ (Emits.bind (emits_writeGuestRegister _
    (emits_updateFlags _ hk hf ⟨rflags, he, ?_⟩))))
  rw [hm, merge_congr hlow, merge_congr hhigh]
  rfl

theorem product_high32 (x y : BitVec 32) :
    ((x.setWidth 64 * y.setWidth 64) >>> 32).toNat = x.toNat * y.toNat / 2 ^ 32 := by
  have hx := x.isLt
  have hy := y.isLt
  have hlt : x.toNat * y.toNat < 2 ^ 64 := by
    calc x.toNat * y.toNat < 2 ^ 32 * 2 ^ 32 := Nat.mul_lt_mul'' hx hy
      _ = 2 ^ 64 := by decide
  rw [BitVec.toNat_ushiftRight, BitVec.toNat_mul, BitVec.toNat_setWidth_of_le (by decide),
    BitVec.toNat_setWidth_of_le (by decide), Nat.mod_eq_of_lt hlt, Nat.shiftRight_eq_div_pow]

theorem product_high64 (x y : BitVec 64) :
    ((x.setWidth 128 * y.setWidth 128) >>> 64).setWidth 64 =
      BitVec.ofNat 64 (x.toNat * y.toNat / 2 ^ 64) := by
  have hx := x.isLt
  have hy := y.isLt
  have hlt : x.toNat * y.toNat < 2 ^ 128 := by
    calc x.toNat * y.toNat < 2 ^ 64 * 2 ^ 64 := Nat.mul_lt_mul'' hx hy
      _ = 2 ^ 128 := by decide
  apply BitVec.eq_of_toNat_eq
  rw [BitVec.toNat_setWidth, BitVec.toNat_ushiftRight, BitVec.toNat_mul,
    BitVec.toNat_setWidth_of_le (by decide), BitVec.toNat_setWidth_of_le (by decide),
    Nat.mod_eq_of_lt hlt, Nat.shiftRight_eq_div_pow, BitVec.toNat_ofNat]

theorem signedProduct_high (x y : BitVec 64) :
    ((x.signExtend 128 * y.signExtend 128) >>> 64).setWidth 64 =
      BitVec.ofInt 64 (x.toInt * y.toInt / 2 ^ 64) := by
  rw [BitVec.signExtend, BitVec.signExtend, ← BitVec.ofInt_mul]
  generalize x.toInt * y.toInt = z
  apply BitVec.eq_of_toNat_eq
  rw [BitVec.toNat_setWidth, BitVec.toNat_ushiftRight, BitVec.toNat_ofInt, BitVec.toNat_ofInt,
    Nat.shiftRight_eq_div_pow]
  omega

theorem bne_congr {k l : Nat} {x : BitVec k} {y : BitVec l} (h : x.toNat = y.toNat) :
    (x != 0#k) = (y != 0#l) := by
  rw [Bool.eq_iff_iff, bne_iff_ne, bne_iff_ne, ne_eq, ne_eq, ← BitVec.toNat_inj,
    ← BitVec.toNat_inj, h]
  simp

/-- The product of two dwords. -/
theorem reaches_product32 {a b : ValueId} {y : BitVec (Width.bits .i32)} (hg : m.guest = g)
    (hm : m.memory = memory) (hx : m.values a = (readReg g .i32 .rax).setWidth 64)
    (hy : m.values b = y.setWidth 64) :
    Reaches rt (lowerProduct rip 32 a b) n m g (multiplying g memory .i32 y) := by
  refine Emits.bind (emits_multiplyLow _ (Emits.bind (emits_shiftRightLogical _ (by decide) ?_)))
  rw [hx, hy, Machine.define_self]
  generalize hread : readReg g .i32 .rax = x
  have hself : ∀ z : BitVec (Width.bits .i32), (z.setWidth 64).setWidth (Width.bits .i32) = z :=
    fun z => (BitVec.setWidth_setWidth_of_le _ (by decide)).trans (BitVec.setWidth_eq _)
  have hhigh := product_high32 x y
  have hfits : x.toNat * y.toNat / 2 ^ 32 < 2 ^ 32 := by
    rw [Nat.div_lt_iff_lt_mul (by decide)]
    exact Nat.mul_lt_mul'' x.isLt y.isLt
  have hne := bne_congr (y := BitVec.ofNat 32 (x.toNat * y.toNat / 2 ^ 32))
    (hhigh.trans ((BitVec.toNat_ofNat _ _).trans (Nat.mod_eq_of_lt hfits)).symm)
  subst hread
  refine reaches_pair hg hm ?_ ?_ rfl rfl ?_
  · rw [Machine.define_of_ne _ (by omega), Machine.define_self,
      BitVec.setWidth_mul _ _ (by decide), hself, hself]
  · rw [Machine.define_self]
    apply BitVec.eq_of_toNat_eq
    rw [BitVec.toNat_setWidth]
    exact (congrArg (· % 2 ^ 32) hhigh).trans (BitVec.toNat_ofNat _ _).symm
  · rw [Machine.define_self]
    exact hne ▸ meets_overflowing _

/-- The product of two qwords. -/
theorem reaches_product64 {a b : ValueId} {y : BitVec 64} (hg : m.guest = g)
    (hm : m.memory = memory) (ha : a < n) (hb : b < n) (hx : m.values a = g.regs .rax)
    (hy : m.values b = y) :
    Reaches rt (lowerProduct rip 64 a b) n m g (multiplying g memory .i64 y) := by
  have hself : readReg g .i64 .rax = g.regs .rax := BitVec.setWidth_eq _
  refine Emits.bind (emits_multiplyLow _ (Emits.bind (emits_multiplyHighUnsigned _ ?_)))
  rw [Machine.define_of_lt _ ha, Machine.define_of_lt _ hb, hx, hy, product_high64]
  refine reaches_pair hg hm ?_ ?_ rfl rfl ?_
  · rw [Machine.define_of_ne _ (by omega), Machine.define_self, hself]
    exact BitVec.setWidth_eq _
  · rw [Machine.define_self, hself]
    exact BitVec.setWidth_eq _
  · rw [Machine.define_self, hself]
    exact meets_overflowing _

theorem reaches_mul :
    Reaches rt (lowerMul rip s bits) n m m.guest
      (multiplying m.guest m.memory (widthOf bits) (readReg m.guest (widthOf bits) s)) := by
  refine Emits.bind (Emits.raiseIf fun hraise => ?_)
  have hb : bits = 32 ∨ bits = 64 := by
    simp only [Bool.and_eq_false_iff, bne_eq_false_iff_eq] at hraise
    exact hraise
  rcases hb with rfl | rfl
  · refine (computes_readGuestRegister _ _ .i32).then fun a n1 m1 h1 =>
      (computes_readGuestRegister _ _ .i32).then fun b n2 m2 h2 =>
      reaches_product32 (h2.guest.trans h1.guest) (h2.memory.trans h1.memory) ?_ ?_
    · rw [h2.keeps a h1.lt, h1.value]
      rfl
    · rw [h2.value, h1.guest]
      rfl
  · refine (computes_readGuestRegister _ _ .i64).then fun a n1 m1 h1 =>
      (computes_readGuestRegister _ _ .i64).then fun b n2 m2 h2 =>
      reaches_product64 (h2.guest.trans h1.guest) (h2.memory.trans h1.memory)
        (h1.lt.trans_le h2.le) h2.lt ?_ ?_
    · rw [h2.keeps a h1.lt, h1.value]
      rfl
    · rw [h2.value, h1.guest]
      exact (BitVec.setWidth_eq _).symm

/-- The signed product of two qwords. -/
theorem reaches_signedProduct {a b : ValueId} {y : BitVec 64} (hg : m.guest = g)
    (hm : m.memory = memory) (ha : a < n) (hb : b < n) (hx : m.values a = g.regs .rax)
    (hy : m.values b = y) :
    Reaches rt (lowerSignedProduct rip a b) n m g (multiplyingSigned g memory .i64 y) := by
  have hself : readReg g .i64 .rax = g.regs .rax := BitVec.setWidth_eq _
  refine Emits.bind (emits_multiplyLow _ (Emits.bind (emits_multiplyHighSigned _ ?_)))
  rw [Machine.define_of_lt _ ha, Machine.define_of_lt _ hb, hx, hy, signedProduct_high]
  refine reaches_pair hg hm ?_ ?_ rfl (flagUpdate_signedMultiply rfl (.inr rfl)) ?_
  · rw [Machine.define_of_ne _ (by omega), Machine.define_self, hself]
    exact BitVec.setWidth_eq _
  · rw [Machine.define_self, hself]
    exact BitVec.setWidth_eq _
  · rw [Machine.define_of_lt _ (Nat.lt_succ_of_lt ha), Machine.define_of_lt _ ha,
      Machine.define_of_lt _ (Nat.lt_succ_of_lt hb), Machine.define_of_lt _ hb, hx, hy, hself]
    exact meets_imul (w := .i64) (BitVec.setWidth_eq _) (BitVec.setWidth_eq _)

theorem reaches_imul :
    Reaches rt (lowerImul rip s bits) n m m.guest
      (multiplyingSigned m.guest m.memory (widthOf bits) (readReg m.guest (widthOf bits) s)) := by
  refine Emits.bind (Emits.raiseIf fun hraise => ?_)
  obtain rfl : bits = 64 := by simpa using hraise
  refine (computes_readGuestRegister _ _ .i64).then fun a n1 m1 h1 =>
    (computes_readGuestRegister _ _ .i64).then fun b n2 m2 h2 =>
    reaches_signedProduct (h2.guest.trans h1.guest) (h2.memory.trans h1.memory)
      (h1.lt.trans_le h2.le) h2.lt ?_ ?_
  · rw [h2.keeps a h1.lt, h1.value]
    rfl
  · rw [h2.value, h1.guest]
    exact (BitVec.setWidth_eq _).symm

/-- The product of the forms with a destination. -/
theorem reaches_truncatedProduct {a b : ValueId} {x y : BitVec w.bits}
    (hw : w = .i32 ∨ w = .i64) (hg : m.guest = g) (hm : m.memory = memory) (ha : a < n)
    (hb : b < n) (hx : (m.values a).setWidth w.bits = x) (hy : (m.values b).setWidth w.bits = y) :
    Reaches rt (lowerTruncatedProduct rip r w a b) n m g (writing g memory w r (imul x y)) := by
  refine Emits.bind (emits_multiplyLow _ (reaches_write_flags hg hm ?_ rfl
    (flagUpdate_signedMultiply rfl hw) ?_))
  · rw [Machine.define_self, BitVec.setWidth_mul _ _ w.bits_le, hx, hy]
    rfl
  · rw [Machine.define_of_lt _ ha, Machine.define_of_lt _ hb]
    exact meets_imul hx hy

theorem reaches_imulReg {sourceBits : Nat} :
    Reaches rt (lowerImulReg rip r bits s sourceBits) n m m.guest
      (writing m.guest m.memory (widthOf bits) r
        (imul (readReg m.guest (widthOf bits) r) (readReg m.guest (widthOf bits) s))) := by
  refine Emits.bind (Emits.raiseIf fun hraise => ?_)
  have hb := mem_wide (Bool.or_eq_false_iff.mp hraise).2
  simp only [ite_wide hb]
  refine (computes_readGuestRegister _ _ _).then fun a n1 m1 h1 =>
    (computes_readGuestRegister _ _ _).then fun b n2 m2 h2 =>
    reaches_truncatedProduct (widthOf_wide hb) (h2.guest.trans h1.guest)
      (h2.memory.trans h1.memory) (h1.lt.trans_le h2.le) h2.lt ?_ ?_
  · rw [h2.keeps a h1.lt, h1.value]
    exact setWidth_hostResult _
  · rw [h2.value, h1.guest]
    exact setWidth_hostResult _

theorem reaches_imulImm {sourceBits : Nat} (immediate : BitVec 64) :
    Reaches rt (lowerImulImm rip r bits s sourceBits immediate) n m m.guest
      (writing m.guest m.memory (widthOf bits) r
        (imul (readReg m.guest (widthOf bits) s) (immediate.setWidth _))) := by
  refine Emits.bind (Emits.raiseIf fun hraise => ?_)
  have hb := mem_wide (Bool.or_eq_false_iff.mp hraise).2
  simp only [ite_wide hb]
  refine (computes_readGuestRegister _ _ _).then fun a n1 m1 h1 =>
    Emits.bind (emits_constant _ (reaches_truncatedProduct (widthOf_wide hb) h1.guest h1.memory
      (Nat.lt_succ_of_lt h1.lt) (Nat.lt_succ_self _) ?_ ?_))
  · rw [Machine.define_of_lt _ h1.lt, h1.value]
    exact setWidth_hostResult _
  · rw [Machine.define_self]
    exact setWidth_hostResult _

theorem reaches_union {a b : ValueId} {x y : BitVec w.bits} (hg : m.guest = g)
    (hm : m.memory = memory) (hx : (m.values a).setWidth w.bits = x)
    (hy : (m.values b).setWidth w.bits = y) :
    Reaches rt (lowerUnion rip r w a b) n m g (writing g memory w r (or x y)) := by
  have hres : (w.hostResult (m.values a ||| m.values b)).setWidth w.bits = x ||| y := by
    rw [setWidth_hostResult, BitVec.setWidth_or, hx, hy]
  refine Emits.bind (emits_bitOr _ (reaches_write_flags hg hm ?_ rfl rfl ?_))
  · rw [Machine.define_self, hres]
    rfl
  · rw [Machine.define_self]
    exact meets_or hres

theorem reaches_orReg :
    Reaches rt (lowerOrReg rip r bits s) n m m.guest
      (writing m.guest m.memory (widthOf bits) r
        (or (readReg m.guest (widthOf bits) r) (readReg m.guest (widthOf bits) s))) := by
  refine (computes_readGuestRegister _ _ _).then fun a n1 m1 h1 =>
    (computes_readGuestRegister _ _ _).then fun b n2 m2 h2 =>
    reaches_union (h2.guest.trans h1.guest) (h2.memory.trans h1.memory) ?_ ?_
  · rw [h2.keeps a h1.lt, h1.value]
    exact setWidth_hostResult _
  · rw [h2.value, h1.guest]
    exact setWidth_hostResult _

end

/-! ### Divisions -/

section

variable {M E : Type} {rt : Runtime M E} {rip : GuestAddress} {n : Nat} {m : Machine M}
variable {r s : Register} {bits : Nat} {w : Width} {g : GuestState} {memory : M}
variable {thrown : String → E}

/-- What a helper returns or throws is what the ending allows. -/
def Helps (thrown : String → E) (ending : Ending M E) (g : GuestState) (memory : M) :
    Except String GuestState → Prop
  | .ok g' => ending.Allows g (.ok (), g', memory)
  | .error message => ending.Allows g (.error (thrown message), g, memory)

theorem reaches_divide {opcode : Opcode} {f : GuestState → BitVec 64 → Except String GuestState}
    {a : ValueId} {ending : Ending M E} (hk : opcode.kind = .helper)
    (hf : divideHelper opcode = some f) (hg : m.guest = g) (hm : m.memory = memory)
    (h : Helps thrown ending g memory (f g (m.values a))) :
    Reaches (withDivides rt thrown) (divide rip opcode w a) n m g ending := by
  subst hg hm
  refine Emits.append ?_
  simp only [step, hk, operands, withDivides, Operation.payload, hf, Option.map_some]
  rcases hresult : f m.guest (m.values a) with message | g'
  · rw [hresult] at h
    exact ⟨_, rfl, h⟩
  · rw [hresult] at h
    exact h

theorem FlagEffects.meets_undefined {old : BitVec 64} : FlagEffects.undefined.Meets old old :=
  ⟨trivial, trivial, trivial, trivial, trivial, trivial, rfl⟩

theorem quotientRemainder_eq {q e : Nat} (hq : q < 2 ^ 8) (he : e < 2 ^ 8) :
    BitVec.ofNat 16 q ||| BitVec.ofNat 16 e <<< 8 = BitVec.ofNat 8 e ++ BitVec.ofNat 8 q := by
  apply BitVec.eq_of_toNat_eq
  rw [toNat_append_byte, BitVec.or_comm, BitVec.toNat_or, BitVec.toNat_shiftLeft,
    BitVec.toNat_ofNat, BitVec.toNat_ofNat, BitVec.toNat_ofNat, BitVec.toNat_ofNat,
    Nat.mod_eq_of_lt hq, Nat.mod_eq_of_lt he, Nat.mod_eq_of_lt (show q < 2 ^ 16 by omega),
    Nat.mod_eq_of_lt (show e < 2 ^ 16 by omega), Nat.shiftLeft_eq,
    Nat.mod_eq_of_lt (show e * 2 ^ 8 < 2 ^ 16 by omega), ← Nat.shiftLeft_eq,
    ← Nat.shiftLeft_add_eq_or_of_lt hq, Nat.shiftLeft_eq]

theorem helps_divideUnsignedByte (v : BitVec 64) :
    Helps thrown (dividingByte g memory (v.setWidth 8)) g memory (divideUnsignedByte g v) := by
  by_cases hz : v.setWidth 8 = 0
  · have hcode : divideUnsignedByte g v = .error "x86 divide error: byte divisor is zero" :=
      if_pos hz
    have hspec : dividingByte (E := E) g memory (v.setWidth 8) = .divideError memory :=
      if_pos (.inl hz)
    rw [hcode, hspec]
    exact ⟨_, rfl⟩
  by_cases hq : 2 ^ 8 ≤ (readReg g .i16 .rax).toNat / (v.setWidth 8).toNat
  · have hcode : divideUnsignedByte g v =
        .error "x86 divide error: byte quotient overflows AL" :=
      (if_neg hz).trans (if_pos hq)
    have hspec : dividingByte (E := E) g memory (v.setWidth 8) = .divideError memory :=
      if_pos (.inr hq)
    rw [hcode, hspec]
    exact ⟨_, rfl⟩
  have hcode : divideUnsignedByte g v = .ok (g.setReg .rax
      ((g.regs .rax &&& ~~~(0xFFFF : BitVec 64)) |||
        (BitVec.ofNat 16 ((readReg g .i16 .rax).toNat / (v.setWidth 8).toNat) |||
          BitVec.ofNat 16 ((readReg g .i16 .rax).toNat % (v.setWidth 8).toNat) <<< 8).setWidth 64)) :=
    (if_neg hz).trans (if_neg hq)
  have hspec : dividingByte (E := E) g memory (v.setWidth 8) = .done (writeReg g .i16 .rax
      (BitVec.ofNat 8 ((readReg g .i16 .rax).toNat % (v.setWidth 8).toNat) ++
        BitVec.ofNat 8 ((readReg g .i16 .rax).toNat / (v.setWidth 8).toNat))) .undefined memory :=
    if_neg (not_or.mpr ⟨hz, hq⟩)
  have hpos : 0 < (v.setWidth 8).toNat := by
    rw [Nat.pos_iff_ne_zero]
    exact fun h => hz (BitVec.eq_of_toNat_eq h)
  have hrem := Nat.mod_lt (readReg g .i16 .rax).toNat hpos
  rw [hcode, hspec, quotientRemainder_eq (by omega) (hrem.trans (v.setWidth 8).isLt)]
  refine ⟨g.rflags, FlagEffects.meets_undefined, ?_⟩
  generalize BitVec.ofNat 8 ((readReg g .i16 .rax).toNat % (v.setWidth 8).toNat) ++
    BitVec.ofNat 8 ((readReg g .i16 .rax).toNat / (v.setWidth 8).toNat) = result
  have hmerge : Width.merge .i16 (g.regs .rax) (BitVec.setWidth 64 result) =
      (g.regs .rax &&& ~~~(0xFFFF : BitVec 64)) ||| result.setWidth 64 :=
    congrArg (_ ||| ·) ((Width.and_mask .i16 _).trans (Width.truncate_setWidth .i16 result))
  rw [← hmerge]
  rfl

/-- A wide register write. -/
theorem writeReg_ofNat (hw : w = .i32 ∨ w = .i64) {q : Nat} (hq : q < 2 ^ w.bits) :
    writeReg g w r (BitVec.ofNat w.bits q) = g.setReg r (BitVec.ofNat 64 q) := by
  have hext : (BitVec.ofNat w.bits q).setWidth 64 = BitVec.ofNat 64 q := by
    apply BitVec.eq_of_toNat_eq
    have hlt : q < 2 ^ 64 := hq.trans_le (Nat.pow_le_pow_right (by decide) w.bits_le)
    rw [BitVec.toNat_setWidth_of_le w.bits_le, BitVec.toNat_ofNat, BitVec.toNat_ofNat,
      Nat.mod_eq_of_lt hq, Nat.mod_eq_of_lt hlt]
  have hmerge : w.merge (g.regs r) ((BitVec.ofNat w.bits q).setWidth 64) =
      (BitVec.ofNat w.bits q).setWidth 64 := by
    rcases hw with rfl | rfl
    · exact Width.truncate_setWidth .i32 _
    · rfl
  rw [writeReg, hmerge, hext]

theorem helps_divideUnsigned (hw : w = .i32 ∨ w = .i64) (zero overflow : String) (v : BitVec 64) :
    Helps thrown (dividing g memory w (v.setWidth w.bits)) g memory
      (divideUnsigned w zero overflow g v) := by
  have hz : v.setWidth w.bits = 0 ↔ (v.setWidth w.bits).toNat = 0 := by
    rw [← BitVec.toNat_inj]
    rfl
  by_cases hy : (v.setWidth w.bits).toNat = 0
  · have hcode : divideUnsigned w zero overflow g v = .error zero := if_pos hy
    have hspec : dividing (E := E) g memory w (v.setWidth w.bits) = .divideError memory :=
      if_pos (.inl (hz.mpr hy))
    rw [hcode, hspec]
    exact ⟨_, rfl⟩
  by_cases hq : 2 ^ w.bits ≤ ((readReg g w .rdx).toNat * 2 ^ w.bits + (readReg g w .rax).toNat) /
      (v.setWidth w.bits).toNat
  · have hcode : divideUnsigned w zero overflow g v = .error overflow :=
      (if_neg hy).trans (if_pos hq)
    have hspec : dividing (E := E) g memory w (v.setWidth w.bits) = .divideError memory :=
      if_pos (.inr hq)
    rw [hcode, hspec]
    exact ⟨_, rfl⟩
  have hcode : divideUnsigned w zero overflow g v = .ok ((g.setReg .rax (BitVec.ofNat 64
      (((readReg g w .rdx).toNat * 2 ^ w.bits + (readReg g w .rax).toNat) /
        (v.setWidth w.bits).toNat))).setReg .rdx (BitVec.ofNat 64
      (((readReg g w .rdx).toNat * 2 ^ w.bits + (readReg g w .rax).toNat) %
        (v.setWidth w.bits).toNat))) :=
    (if_neg hy).trans (if_neg hq)
  have hspec : dividing (E := E) g memory w (v.setWidth w.bits) = .done (writeReg (writeReg g w .rax
      (BitVec.ofNat _ (((readReg g w .rdx).toNat * 2 ^ w.bits + (readReg g w .rax).toNat) /
        (v.setWidth w.bits).toNat))) w .rdx
      (BitVec.ofNat _ (((readReg g w .rdx).toNat * 2 ^ w.bits + (readReg g w .rax).toNat) %
        (v.setWidth w.bits).toNat))) .undefined memory :=
    if_neg (not_or.mpr ⟨fun h => hy (hz.mp h), hq⟩)
  have hrem := Nat.mod_lt ((readReg g w .rdx).toNat * 2 ^ w.bits + (readReg g w .rax).toNat)
    (Nat.pos_of_ne_zero hy)
  rw [hcode, hspec, writeReg_ofNat hw (Nat.lt_of_not_le hq),
    writeReg_ofNat hw (hrem.trans (v.setWidth w.bits).isLt)]
  exact ⟨g.rflags, FlagEffects.meets_undefined, rfl⟩

theorem writeReg_i32 (x : BitVec (Width.bits .i32)) :
    writeReg g .i32 r x = g.setReg r (x.setWidth 64) := by
  have hmerge : Width.merge .i32 (g.regs r) (x.setWidth 64) = x.setWidth 64 :=
    Width.truncate_setWidth .i32 x
  rw [writeReg, hmerge]

theorem helps_divideSignedDword (v : BitVec 64) :
    Helps thrown (dividingSigned g memory .i32 (v.setWidth (Width.bits .i32))) g memory
      (divideSignedDword g v) := by
  generalize hy : v.setWidth (Width.bits .i32) = y
  generalize hx : (readReg g .i32 .rdx ++ readReg g .i32 .rax).toInt = x
  have hz : y = 0 ↔ y.toInt = 0 := by
    rw [← BitVec.toInt_inj]
    rfl
  have hcode : divideSignedDword g v =
      if y.toInt = 0 then .error "x86 divide error: signed dword divisor is zero"
      else if x = -2 ^ 63 ∧ y.toInt = -1 then
        .error "x86 divide error: signed dword quotient overflows EAX"
      else if x.tdiv y.toInt < -2 ^ 31 ∨ 2 ^ 31 ≤ x.tdiv y.toInt then
        .error "x86 divide error: signed dword quotient overflows EAX"
      else
        .ok ((g.setReg .rax ((BitVec.ofInt 32 (x.tdiv y.toInt)).setWidth 64)).setReg .rdx
          ((BitVec.ofInt 32 (x.tmod y.toInt)).setWidth 64)) := by
    subst hy hx
    rfl
  have hspec : dividingSigned (E := E) g memory .i32 y =
      if y = 0 ∨ ¬(-2 ^ 31 ≤ x.tdiv y.toInt ∧ x.tdiv y.toInt < 2 ^ 31) then .divideError memory
      else .done (writeReg (writeReg g .i32 .rax (BitVec.ofInt _ (x.tdiv y.toInt))) .i32 .rdx
        (BitVec.ofInt _ (x.tmod y.toInt))) .undefined memory := by
    subst hx
    rfl
  rw [hcode, hspec]
  by_cases hzero : y.toInt = 0
  · rw [if_pos hzero, if_pos (.inl (hz.mpr hzero))]
    exact ⟨_, rfl⟩
  rw [if_neg hzero]
  by_cases hmin : x = -2 ^ 63 ∧ y.toInt = -1
  · -- the quotient the host cannot compute is out of range too
    have hrange : ¬(-2 ^ 31 ≤ x.tdiv y.toInt ∧ x.tdiv y.toInt < 2 ^ 31) := by
      rw [hmin.1, hmin.2]
      decide
    rw [if_pos hmin, if_pos (.inr hrange)]
    exact ⟨_, rfl⟩
  rw [if_neg hmin]
  by_cases hq : x.tdiv y.toInt < -2 ^ 31 ∨ 2 ^ 31 ≤ x.tdiv y.toInt
  · rw [if_pos hq, if_pos (.inr (by omega))]
    exact ⟨_, rfl⟩
  · rw [if_neg hq, if_neg (not_or.mpr ⟨fun h => hzero (hz.mp h), not_not.mpr (by omega)⟩),
      writeReg_i32, writeReg_i32]
    exact ⟨g.rflags, FlagEffects.meets_undefined, rfl⟩

theorem helps_divideRegister (hw : w = .i32 ∨ w = .i64) (zero overflow : String) (s : Register) :
    Helps thrown (dividing g memory w (readReg g w s)) g memory
      (divideUnsigned w zero overflow g (w.hostResult (g.regs s))) := by
  have hread : readReg g w s = (w.hostResult (g.regs s)).setWidth w.bits :=
    (setWidth_hostResult _).symm
  rw [hread]
  exact helps_divideUnsigned hw _ _ _

theorem helps_divideLoaded (hw : w = .i32 ∨ w = .i64) (zero overflow : String)
    (v : BitVec w.bits) :
    Helps thrown (dividing g memory w v) g memory
      (divideUnsigned w zero overflow g (v.setWidth 64)) := by
  have hself : (v.setWidth 64).setWidth w.bits = v :=
    (BitVec.setWidth_setWidth_of_le _ w.bits_le).trans (BitVec.setWidth_eq _)
  have h : Helps thrown (dividing g memory w ((v.setWidth 64).setWidth w.bits)) g memory
      (divideUnsigned w zero overflow g (v.setWidth 64)) := helps_divideUnsigned hw _ _ _
  rwa [hself] at h

theorem reaches_div :
    Reaches (withDivides rt thrown) (lowerDiv rip s bits) n m m.guest
      (if bits = 8 then dividingByte m.guest m.memory (readReg m.guest .i8 s)
        else dividing m.guest m.memory (widthOf bits) (readReg m.guest (widthOf bits) s)) := by
  refine Emits.bind (Emits.raiseIf fun hraise => ?_)
  have hb : bits = 8 ∨ bits = 32 ∨ bits = 64 := by
    simp only [Bool.and_eq_false_iff, bne_eq_false_iff_eq] at hraise
    omega
  rcases hb with rfl | rfl | rfl
  · refine (computes_readGuestRegister _ _ .i8).then fun a n1 m1 h1 =>
      reaches_divide rfl rfl h1.guest h1.memory ?_
    rw [h1.value]
    exact helps_divideUnsignedByte _
  · refine (computes_readGuestRegister _ _ .i32).then fun a n1 m1 h1 =>
      reaches_divide rfl rfl h1.guest h1.memory ?_
    rw [h1.value]
    exact helps_divideRegister (.inl rfl) _ _ s
  · refine (computes_readGuestRegister _ _ .i64).then fun a n1 m1 h1 =>
      reaches_divide rfl rfl h1.guest h1.memory ?_
    rw [h1.value]
    exact helps_divideRegister (.inr rfl) _ _ s

theorem reaches_idiv :
    Reaches (withDivides rt thrown) (lowerIdiv rip s bits) n m m.guest
      (dividingSigned m.guest m.memory (widthOf bits) (readReg m.guest (widthOf bits) s)) := by
  refine Emits.bind (Emits.raiseIf fun hraise => ?_)
  obtain rfl : bits = 32 := by simpa using hraise
  refine (computes_readGuestRegister _ _ .i32).then fun a n1 m1 h1 =>
    reaches_divide rfl rfl h1.guest h1.memory ?_
  have hread : readReg m.guest (widthOf 32) s =
      (Width.hostResult .i32 (m.guest.regs s)).setWidth (Width.bits .i32) :=
    (setWidth_hostResult (w := .i32) _).symm
  rw [h1.value, hread]
  exact helps_divideSignedDword _

end

/-! ### Memory operands -/

section

variable {M E : Type} {rt : Runtime M E} {n : Nat} {m : Machine M} {i : AluInstruction}
variable {operand : MemoryOperand} {r : Register} {bits : Nat} {w : Width} {g : GuestState}
variable {memory : M} {thrown : String → E}

/-- A load ends the instruction with a fault, or goes on. -/
theorem reaches_loading {f : ValueId → Lowering Unit} {a : ValueId}
    {k : BitVec w.bits → M → Ending M E} (hg : m.guest = g) (hm : m.memory = memory)
    (ha : m.values a = addressOf i operand g)
    (h : ∀ v memory', Reaches rt (f n) (n + 1)
      ({ m with memory := memory' }.define n (v.setWidth 64)) g (k v memory')) :
    Reaches rt (loadGuest i.address a w >>= f) n m g (loadingThen rt i operand w g memory k) := by
  subst hg hm
  refine Emits.bind (emits_loadGuest _ ?_)
  rw [ha]
  unfold loadingThen
  rcases rt.load w (addressOf i operand m.guest) m.memory with ⟨e | v, memory'⟩
  · exact fun op o => ⟨_, rfl, rfl⟩
  · exact h v memory'

/-- The base of an operand without index. -/
theorem refusedBased_false (h : refusedBased operand = false) :
    operand.ripRelative = false ∧ operand.index = none := by
  unfold refusedBased at h
  simp only [Bool.or_eq_false_iff, Option.isSome_eq_false_iff, Option.isNone_iff_eq_none] at h
  exact ⟨h.1.1.2, h.1.2⟩

theorem computes_base (h : operand.ripRelative = false) :
    Computes rt (readGuestRegister i.address operand.base .i64) n m
      (baseValue i operand m.guest) := by
  unfold baseValue
  rw [h]
  exact computes_readGuestRegister _ _ .i64

theorem reaches_mulMem (hf : operand.Formed operand.width) :
    Reaches rt (lowerMulMem i operand) n m m.guest
      (loadingThen rt i operand (widthOf operand.width) m.guest m.memory fun v memory =>
        multiplying m.guest memory (widthOf operand.width) v) := by
  refine Emits.bind (Emits.raiseIf fun hraise => ?_)
  simp only [Bool.or_eq_false_iff, Bool.and_eq_false_iff, bne_eq_false_iff_eq] at hraise
  obtain ⟨hwidth, hrefused⟩ := hraise
  obtain ⟨hrip, hindex⟩ := refusedBased_false hrefused
  rcases hwidth with hwidth | hwidth
  · rw [hwidth]
    refine emits_based hf hindex (computes_base hrip) fun a n1 m1 h1 =>
      reaches_loading h1.guest h1.memory h1.value fun v memory' =>
      (computes_readGuestRegister _ _ .i32).then fun b n2 m2 h2 =>
      reaches_product32 (h2.guest.trans h1.guest) h2.memory ?_ ?_
    · rw [h2.value, Machine.define_guest, h1.guest]
      rfl
    · rw [h2.keeps _ (Nat.lt_succ_self _), Machine.define_self]
  · rw [hwidth]
    refine emits_based hf hindex (computes_base hrip) fun a n1 m1 h1 =>
      reaches_loading h1.guest h1.memory h1.value fun v memory' =>
      (computes_readGuestRegister _ _ .i64).then fun b n2 m2 h2 =>
      reaches_product64 (h2.guest.trans h1.guest) h2.memory h2.lt
        ((Nat.lt_succ_self _).trans_le h2.le) ?_ ?_
    · rw [h2.value, Machine.define_guest, h1.guest]
      rfl
    · rw [h2.keeps _ (Nat.lt_succ_self _), Machine.define_self]
      exact BitVec.setWidth_eq _

theorem reaches_imulMem (hf : operand.Formed operand.width) :
    Reaches rt (lowerImulMem i operand) n m m.guest
      (loadingThen rt i operand (widthOf operand.width) m.guest m.memory fun v memory =>
        multiplyingSigned m.guest memory (widthOf operand.width) v) := by
  refine Emits.bind (Emits.raiseIf fun hraise => ?_)
  simp only [Bool.or_eq_false_iff, bne_eq_false_iff_eq] at hraise
  obtain ⟨hwidth, hrefused⟩ := hraise
  obtain ⟨hrip, hindex⟩ := refusedBased_false hrefused
  rw [hwidth]
  refine emits_based hf hindex (computes_base hrip) fun a n1 m1 h1 =>
    reaches_loading h1.guest h1.memory h1.value fun v memory' =>
    (computes_readGuestRegister _ _ .i64).then fun b n2 m2 h2 =>
    reaches_signedProduct (h2.guest.trans h1.guest) h2.memory h2.lt
      ((Nat.lt_succ_self _).trans_le h2.le) ?_ ?_
  · rw [h2.value, Machine.define_guest, h1.guest]
    rfl
  · rw [h2.keeps _ (Nat.lt_succ_self _), Machine.define_self]
    exact BitVec.setWidth_eq _

theorem reaches_divMem (hf : operand.Formed operand.width) :
    Reaches (withDivides rt thrown) (lowerDivMem i operand) n m m.guest
      (loadingThen rt i operand (widthOf operand.width) m.guest m.memory fun v memory =>
        dividing m.guest memory (widthOf operand.width) v) := by
  refine Emits.bind (Emits.raiseIf fun hraise => ?_)
  simp only [Bool.or_eq_false_iff, Bool.and_eq_false_iff, bne_eq_false_iff_eq] at hraise
  obtain ⟨hwidth, hrefused⟩ := hraise
  obtain ⟨hrip, hindex⟩ := refusedBased_false hrefused
  rcases hwidth with hwidth | hwidth
  · refine emits_based hf hindex (computes_base hrip) fun a n1 m1 h1 => ?_
    rw [hwidth]
    refine reaches_loading (w := .i32) h1.guest h1.memory h1.value
      fun v memory' => reaches_divide rfl rfl h1.guest rfl ?_
    rw [Machine.define_self]
    exact helps_divideLoaded (.inl rfl) _ _ v
  · refine emits_based hf hindex (computes_base hrip) fun a n1 m1 h1 => ?_
    rw [hwidth]
    refine reaches_loading (w := .i64) h1.guest h1.memory h1.value
      fun v memory' => reaches_divide rfl rfl h1.guest rfl ?_
    rw [Machine.define_self]
    exact helps_divideLoaded (.inr rfl) _ _ v

theorem reaches_imulRegMem (hf : operand.Formed bits) :
    Reaches rt (lowerImulRegMem i operand r bits) n m m.guest
      (loadingThen rt i operand (widthOf bits) m.guest m.memory fun v memory =>
        writing m.guest memory (widthOf bits) r (imul (readReg m.guest (widthOf bits) r) v)) := by
  refine Emits.bind (Emits.raiseIf fun hraise => ?_)
  have hb : bits ∈ [32, 64] := by
    simp only [List.mem_cons, List.not_mem_nil, or_false]
    simp only [Bool.or_eq_false_iff, Bool.and_eq_false_iff, bne_eq_false_iff_eq] at hraise
    exact hraise.1.1.1
  have hw : (if bits = 32 ∧ operand.width = 32 then Width.i32 else .i64) = widthOf bits := by
    rw [hf.width]
    rcases List.mem_pair.mp hb with rfl | rfl <;> rfl
  simp only [hw]
  refine emits_indexed hf computes_baseAddress fun a n1 m1 h1 =>
    reaches_loading h1.guest h1.memory h1.value fun v memory' =>
    (computes_readGuestRegister _ _ _).then fun b n2 m2 h2 =>
    reaches_truncatedProduct (widthOf_wide hb) (h2.guest.trans h1.guest) h2.memory h2.lt
      ((Nat.lt_succ_self _).trans_le h2.le) ?_ ?_
  · rw [h2.value, Machine.define_guest, h1.guest]
    exact setWidth_hostResult _
  · rw [h2.keeps _ (Nat.lt_succ_self _), Machine.define_self]
    exact (BitVec.setWidth_setWidth_of_le _ (Width.bits_le _)).trans (BitVec.setWidth_eq _)

theorem reaches_imulRegMemImm (hf : operand.Formed operand.width) (immediate : BitVec 64) :
    Reaches rt (lowerImulRegMemImm i operand r bits immediate) n m m.guest
      (loadingThen rt i operand (widthOf bits) m.guest m.memory fun v memory =>
        writing m.guest memory (widthOf bits) r (imul v (immediate.setWidth _))) := by
  refine Emits.bind (Emits.raiseIf fun hraise => ?_)
  simp only [Bool.or_eq_false_iff, Bool.and_eq_false_iff, bne_eq_false_iff_eq,
    Option.isSome_eq_false_iff, Option.isNone_iff_eq_none] at hraise
  have hb : bits ∈ [32, 64] := List.mem_pair.mpr hraise.1.1.2
  simp only [ite_wide hb]
  refine emits_based hf hraise.1.2 computes_baseAddress fun a n1 m1 h1 =>
    reaches_loading h1.guest h1.memory h1.value fun v memory' =>
    Emits.bind (emits_constant _ (reaches_truncatedProduct (widthOf_wide hb) h1.guest rfl
      (Nat.lt_succ_of_lt (Nat.lt_succ_self _)) (Nat.lt_succ_self _) ?_ ?_))
  · rw [Machine.define_of_ne _ (by omega), Machine.define_self]
    exact (BitVec.setWidth_setWidth_of_le _ (Width.bits_le _)).trans (BitVec.setWidth_eq _)
  · rw [Machine.define_self]
    exact setWidth_hostResult _

theorem reaches_orMem (hf : operand.Formed operand.width) :
    Reaches rt (lowerOrMem i operand r bits) n m m.guest
      (loadingThen rt i operand (widthOf bits) m.guest m.memory fun v memory =>
        writing m.guest memory (widthOf bits) r (or (readReg m.guest (widthOf bits) r) v)) := by
  refine Emits.bind (Emits.raiseIf fun hraise => ?_)
  refine emits_indexed hf computes_baseAddress fun a n1 m1 h1 =>
    reaches_loading h1.guest h1.memory h1.value fun v memory' =>
    (computes_readGuestRegister _ _ _).then fun b n2 m2 h2 =>
    reaches_union (h2.guest.trans h1.guest) h2.memory ?_ ?_
  · rw [h2.value, Machine.define_guest, h1.guest]
    exact setWidth_hostResult _
  · rw [h2.keeps _ (Nat.lt_succ_self _), Machine.define_self]
    exact (BitVec.setWidth_setWidth_of_le _ (Width.bits_le _)).trans (BitVec.setWidth_eq _)

end

end X86

end Rosa
