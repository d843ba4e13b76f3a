import Rosa.X86.OperationFlags

/-!
# Shifts, rotates and the operations on one register

For each case of the lowering : what it emits ends as the instruction does (`Reaches`). A case
reads its operand at the width, masked where the host register would hold more, computes with
64-bit operations and writes the destination; the value is right at the width (`setWidth_…`), and
the count that the flag update gets is the count of the shift.
-/

namespace Rosa

namespace X86

open Lowering

/-! ## Lowerings that end as the instruction does -/

/-- If the lowering returns, what is seen after it is what the ending allows from `g`. -/
def Reaches {M E : Type} (rt : Runtime M E) (x : Lowering Unit) (n : Nat) (m : Machine M)
    (g : GuestState) (ending : Ending M E) : Prop :=
  Emits rt x n m (fun _ _ m' => ending.Allows g (.ok (), m'.guest, m'.memory))
    fun o => ∃ seen, observed (.done o) = some seen ∧ ending.Allows g seen

section

variable {M E : Type} {rt : Runtime M E} {rip : GuestAddress} {n : Nat} {m : Machine M}
variable {g : GuestState} {memory : M} {w : Width}

theorem merge_congr {old v : BitVec 64} {x : BitVec w.bits} (h : v.setWidth w.bits = x) :
    w.merge old v = w.merge old (x.setWidth 64) := by
  have ht : w.truncate v = w.truncate (x.setWidth 64) := by
    rw [truncate_eq h, Width.truncate_setWidth]
  cases w with
  | i64 => rwa [Width.truncate_i64, Width.truncate_i64] at ht
  | i32 => exact ht
  | i16 =>
    simp only [Width.merge, Width.and_mask]
    rw [ht]
  | i8 =>
    simp only [Width.merge, Width.and_mask]
    rw [ht]

/-- A write of the destination ends an instruction that keeps the flags. -/
theorem reaches_write {r : Register} {a : ValueId} {p : BitVec w.bits × FlagEffects}
    (hg : m.guest = g) (hm : m.memory = memory) (hv : (m.values a).setWidth w.bits = p.1)
    (he : p.2.Meets g.rflags g.rflags) :
    Reaches rt (writeGuestRegister rip r a w) n m g (writing g memory w r p) := by
  refine emits_writeGuestRegister _ ⟨g.rflags, he, ?_⟩
  rw [hg, hm, merge_congr hv]
  rfl

/-- A write of the destination and a flag update end an instruction. -/
theorem reaches_write_flags {r : Register} {a b : ValueId} {c d : Option ValueId}
    {opcode : Opcode} {wf : Width} {count : Nat} {p : BitVec w.bits × FlagEffects}
    {rflags : BitVec 64} (hg : m.guest = g) (hm : m.memory = memory)
    (hv : (m.values a).setWidth w.bits = p.1) (hk : opcode.kind = .flags)
    (hf : flagUpdate { opcode := opcode, width := wf, guestRip := rip, lhs := some b, rhs := c
                       third := d, immediate := BitVec.ofNat 64 (count % 256) }
      ⟨some (m.values b), c.map m.values, d.map m.values⟩ g.rflags = some rflags)
    (he : p.2.Meets g.rflags rflags) :
    Reaches rt (writeGuestRegister rip r a w >>= fun _ => updateFlags rip opcode wf b c d count)
      n m g (writing g memory w r p) := by
  subst hg
  refine Emits.bind (emits_writeGuestRegister _ (emits_updateFlags _ hk hf ⟨rflags, he, ?_⟩))
  rw [hm, merge_congr hv]
  rfl

/-! ### The helper of a width -/

section

variable {op : Operation} {l s rflags : BitVec 64} {c : Option (BitVec 64)}

theorem flagUpdate_shiftLeft (hop : op.opcode = .updateShiftLeftFlags) (hw : op.width ≠ .i16) :
    flagUpdate op ⟨some l, some s, c⟩ rflags =
      some (updateShiftLeftFlags op.width rflags l s (c.getD op.immediate)) := by
  unfold flagUpdate
  simp only [hop]
  cases hwidth : op.width <;> first | exact absurd hwidth hw | rfl

theorem flagUpdate_shiftRight (hop : op.opcode = .updateShiftRightFlags) (hw : op.width ≠ .i16) :
    flagUpdate op ⟨some l, some s, c⟩ rflags =
      some (updateShiftRightFlags op.width rflags l s (c.getD op.immediate)) := by
  unfold flagUpdate
  simp only [hop]
  cases hwidth : op.width <;> first | exact absurd hwidth hw | rfl

theorem flagUpdate_shiftRightArithmetic (hop : op.opcode = .updateShiftRightArithmeticFlags)
    (hw : op.width = .i32 ∨ op.width = .i64) :
    flagUpdate op ⟨some l, some s, c⟩ rflags =
      some (updateShiftRightArithmeticFlags op.width rflags l s (c.getD op.immediate)) := by
  unfold flagUpdate
  simp only [hop]
  rcases hw with hw | hw <;> rw [hw] <;> rfl

theorem flagUpdate_rotateLeft (hop : op.opcode = .updateRotateLeftFlags) (hw : op.width ≠ .i8)
    {o : Option (BitVec 64)} :
    flagUpdate op ⟨some l, c, o⟩ rflags =
      some (updateRotateLeftFlags op.width rflags l (c.getD op.immediate)) := by
  unfold flagUpdate
  simp only [hop]
  cases hwidth : op.width <;> first | exact absurd hwidth hw | rfl

theorem flagUpdate_rotateRight (hop : op.opcode = .updateRotateRightFlags)
    (hw : op.width = .i32 ∨ op.width = .i64) {o : Option (BitVec 64)} :
    flagUpdate op ⟨some l, c, o⟩ rflags =
      some (updateRotateRightFlags op.width rflags l (c.getD op.immediate)) := by
  unfold flagUpdate
  simp only [hop]
  rcases hw with hw | hw <;> rw [hw] <;> rfl

theorem flagUpdate_signedMultiply (hop : op.opcode = .updateSignedMultiplyFlags)
    (hw : op.width = .i32 ∨ op.width = .i64) {o : Option (BitVec 64)} :
    flagUpdate op ⟨some l, some s, o⟩ rflags =
      some (updateSignedMultiplyFlags op.width rflags l s) := by
  unfold flagUpdate
  simp only [hop]
  rcases hw with hw | hw <;> rw [hw] <;> rfl

end

/-! ### Counts -/

theorem shiftCount_eq (v : BitVec 64) : shiftCount w v = maskedCount w v := by
  have hmod : ∀ k : Nat, v.toNat &&& (2 ^ k - 1) = v.toNat % 2 ^ k :=
    Nat.and_two_pow_sub_one_eq_mod _
  unfold shiftCount maskedCount
  split
  · exact hmod 6
  · exact hmod 5

theorem maskedCount_lt (v : BitVec 64) : maskedCount w v < if w = .i64 then 64 else 32 := by
  unfold maskedCount
  split
  · exact Nat.mod_lt _ (by decide)
  · exact Nat.mod_lt _ (by decide)

theorem maskedCount_lt_64 (v : BitVec 64) : maskedCount w v < 64 := by
  have := maskedCount_lt (w := w) v
  split at this <;> omega

theorem maskedCount_ofNat (v : BitVec 64) :
    maskedCount w (BitVec.ofNat 64 (maskedCount w v % 256)) = maskedCount w v := by
  have hlt := maskedCount_lt_64 (w := w) v
  have hlt' := maskedCount_lt (w := w) v
  rw [Nat.mod_eq_of_lt (show maskedCount w v < 256 by omega)]
  rw [maskedCount, BitVec.toNat_ofNat, Nat.mod_eq_of_lt (show maskedCount w v < 2 ^ 64 by omega),
    Nat.mod_eq_of_lt hlt']

/-- The mask of a count. -/
def countMask (w : Width) : BitVec 64 := if w = .i64 then 0x3F else 0x1F

theorem toNat_countMask (v : BitVec 64) : (v &&& countMask w).toNat = maskedCount w v :=
  shiftCount_eq v

theorem maskedCount_countMask (v : BitVec 64) :
    maskedCount w (v &&& countMask w) = maskedCount w v := by
  rw [maskedCount, toNat_countMask, Nat.mod_eq_of_lt (maskedCount_lt v)]

theorem computes_countOfCl :
    Computes rt (countOfCl rip (countMask w)) n m (m.guest.regs .rcx &&& countMask w) := by
  refine Computes.bind (computes_readGuestRegister _ _ .i64) fun a n1 m1 h1 =>
    Computes.bind (computes_constant _ _) fun b n2 m2 h2 => ?_
  have hand : Computes rt (bitAnd rip a b .i64) n2 m2 (m2.values a &&& m2.values b) :=
    computes_define rfl rfl
  rwa [h2.value, h2.keeps a h1.lt, h1.value] at hand

theorem computes_readMasked {r : Register} {bits : Nat} (hb : bits ∈ [8, 32, 64]) :
    Computes rt (readMasked rip r bits (widthOf bits)) n m
      ((widthOf bits).truncate (m.guest.regs r)) := by
  simp only [List.mem_cons, List.not_mem_nil, or_false] at hb
  rcases hb with rfl | rfl | rfl
  · refine Computes.bind (computes_readGuestRegister _ _ .i64) fun a n1 m1 h1 =>
      Computes.bind (computes_constant _ _) fun b n2 m2 h2 => ?_
    have hand : Computes rt (bitAnd rip a b .i64) n2 m2 (m2.values a &&& m2.values b) :=
      computes_define rfl rfl
    rw [h2.value, h2.keeps a h1.lt, h1.value] at hand
    rwa [← Width.and_mask]
  · exact computes_readGuestRegister _ _ .i32
  · rw [show widthOf 64 = .i64 from rfl, Width.truncate_i64]
    exact computes_readGuestRegister _ _ .i64

theorem setWidth_truncate (v : BitVec 64) :
    (w.truncate v).setWidth w.bits = v.setWidth w.bits := by
  rw [Width.truncate, BitVec.setWidth_setWidth_of_le _ w.bits_le, BitVec.setWidth_eq]

/-! ### Shifts -/

theorem setWidth_shiftLeft {v : BitVec 64} {x : BitVec w.bits} (h : v.setWidth w.bits = x)
    (c : Nat) : (v <<< c).setWidth w.bits = x <<< c := by
  rw [BitVec.setWidth_shiftLeft_of_le w.bits_le, h]

theorem setWidth_shiftRight {v : BitVec 64} {x : BitVec w.bits} (h : v = x.setWidth 64)
    (c : Nat) : (v >>> c).setWidth w.bits = x >>> c := by
  have hle := w.bits_le
  rw [h, ← BitVec.setWidth_ushiftRight hle, BitVec.setWidth_setWidth_of_le _ hle,
    BitVec.setWidth_eq]

/-- What the value of a shift is, for a count that is zero too. -/
theorem shl_value {k : Nat} (x : BitVec k) (c : Nat) : (shl x c).1 = x <<< c := by
  unfold shl
  split
  · next h => rw [h, BitVec.shiftLeft_zero]
  · rfl

theorem shr_value {k : Nat} (x : BitVec k) (c : Nat) : (shr x c).1 = x >>> c := by
  unfold shr
  split
  · next h => rw [h, BitVec.ushiftRight_zero]
  · rfl

theorem sar_value {k : Nat} (x : BitVec k) (c : Nat) : (sar x c).1 = x.sshiftRight c := by
  unfold sar
  split
  · next h => rw [h, BitVec.sshiftRight_zero]
  · rfl

theorem reaches_shlCl {r : Register} {bits : Nat} (hb : bits ∈ [8, 32, 64]) :
    Reaches rt (lowerShlCl rip r bits) n m m.guest
      (writing m.guest m.memory (widthOf bits) r (shl (readReg m.guest (widthOf bits) r)
        (maskedCount (widthOf bits) (m.guest.regs .rcx)))) := by
  have hw : (if bits = 8 then Width.i8 else if bits = 32 then .i32 else .i64) = widthOf bits := by
    simp only [List.mem_cons, List.not_mem_nil, or_false] at hb
    rcases hb with rfl | rfl | rfl <;> rfl
  have hmask : (if bits = 64 then 0x3F else 0x1F) = countMask (widthOf bits) := by
    simp only [List.mem_cons, List.not_mem_nil, or_false] at hb
    rcases hb with rfl | rfl | rfl <;> rfl
  have h16 : widthOf bits ≠ .i16 := by
    simp only [List.mem_cons, List.not_mem_nil, or_false] at hb
    rcases hb with rfl | rfl | rfl <;> decide
  unfold lowerShlCl
  simp only [hw, hmask]
  refine (computes_readMasked hb).then fun a n1 m1 h1 => computes_countOfCl.then
    fun b n2 m2 h2 => Emits.bind (emits_shiftLeftBy _ ?_)
  have ha : m2.values a = (widthOf bits).truncate (m.guest.regs r) :=
    (h2.keeps a h1.lt).trans h1.value
  have hb' : m2.values b = m.guest.regs .rcx &&& countMask (widthOf bits) := by
    rw [h2.value, h1.guest]
  have hlhs := setWidth_truncate (w := widthOf bits) (m.guest.regs r)
  rw [ha, hb', toNat_countMask, Nat.mod_eq_of_lt (maskedCount_lt_64 _)]
  have hres := setWidth_shiftLeft hlhs (maskedCount (widthOf bits) (m.guest.regs .rcx))
  refine reaches_write_flags (h2.guest.trans h1.guest) (h2.memory.trans h1.memory) ?_ rfl
    (flagUpdate_shiftLeft rfl h16) ?_
  · rw [Machine.define_self, shl_value]
    exact hres
  · simp only [Option.map_some, Option.getD_some, Machine.define_self,
      Machine.define_of_lt _ (h1.lt.trans_le h2.le), Machine.define_of_lt _ h2.lt, ha, hb']
    exact meets_shl hlhs hres (by rw [shiftCount_eq, maskedCount_countMask])

end

section

variable {M E : Type} {rt : Runtime M E} {rip : GuestAddress} {n : Nat} {m : Machine M}
variable {r : Register} {bits : Nat}

/-- What the guard of the wide lowerings lets through. -/
theorem mem_wide (h : (bits != 32 && bits != 64) = false) : bits ∈ [32, 64] := by
  simp only [Bool.and_eq_false_iff, bne_eq_false_iff_eq] at h
  exact List.mem_pair.mpr h

theorem widthOf_wide (hb : bits ∈ [32, 64]) : widthOf bits = .i32 ∨ widthOf bits = .i64 := by
  rcases List.mem_pair.mp hb with rfl | rfl
  · exact .inl rfl
  · exact .inr rfl

/-- The width as the wide lowerings choose it. -/
theorem ite_wide (hb : bits ∈ [32, 64]) :
    (if bits = 32 then Width.i32 else .i64) = widthOf bits := by
  rcases List.mem_pair.mp hb with rfl | rfl <;> rfl

theorem hostResult_wide (hb : bits ∈ [32, 64]) (v : BitVec 64) :
    (widthOf bits).hostResult v = (widthOf bits).truncate v := by
  rcases widthOf_wide hb with h | h <;> rw [h]
  · rfl
  · exact (Width.truncate_i64 _).symm

theorem computes_readWide (hb : bits ∈ [32, 64]) :
    Computes rt (readGuestRegister rip r (widthOf bits)) n m
      ((widthOf bits).truncate (m.guest.regs r)) := by
  rw [← hostResult_wide hb]
  exact computes_readGuestRegister _ _ _

theorem immediateMasked_eq (hb : bits ∈ [8, 16, 32, 64]) (immediate : BitVec 64) :
    immediateMasked bits immediate = maskedCount (widthOf bits) immediate := by
  have hmask : (if bits = 64 then 0x3F else 0x1F) = countMask (widthOf bits) := by
    simp only [List.mem_cons, List.not_mem_nil, or_false] at hb
    rcases hb with rfl | rfl | rfl | rfl <;> rfl
  rw [immediateMasked, hmask, toNat_countMask]

theorem shiftCount_immediate {w : Width} (immediate : BitVec 64) :
    shiftCount w (BitVec.ofNat 64 (maskedCount w immediate % 256)) = maskedCount w immediate := by
  rw [shiftCount_eq, maskedCount_ofNat]

theorem reaches_shrImm (hb : bits ∈ [8, 32, 64]) (immediate : BitVec 64) :
    Reaches rt (lowerShrImm rip r bits immediate) n m m.guest
      (writing m.guest m.memory (widthOf bits) r (shr (readReg m.guest (widthOf bits) r)
        (maskedCount (widthOf bits) immediate))) := by
  have hw : (if bits = 8 then Width.i8 else if bits = 64 then .i64 else .i32) = widthOf bits := by
    simp only [List.mem_cons, List.not_mem_nil, or_false] at hb
    rcases hb with rfl | rfl | rfl <;> rfl
  have h16 : widthOf bits ≠ .i16 := by
    simp only [List.mem_cons, List.not_mem_nil, or_false] at hb
    rcases hb with rfl | rfl | rfl <;> decide
  have hbits : bits ∈ [8, 16, 32, 64] := by
    simp only [List.mem_cons, List.not_mem_nil, or_false] at hb ⊢
    omega
  unfold lowerShrImm
  simp only [hw, immediateMasked_eq hbits]
  refine (computes_readMasked hb).then fun a n1 m1 h1 =>
    Emits.bind (emits_shiftRightLogical _ (maskedCount_lt_64 _) ?_)
  have hlhs := setWidth_truncate (w := widthOf bits) (m.guest.regs r)
  rw [h1.value]
  have hres := setWidth_shiftRight (w := widthOf bits) (v := (widthOf bits).truncate (m.guest.regs r))
    rfl
    (maskedCount (widthOf bits) immediate)
  refine reaches_write_flags h1.guest h1.memory ?_ rfl
    (flagUpdate_shiftRight rfl h16) ?_
  · rw [Machine.define_self, shr_value]
    exact hres
  · simp only [Option.map_none, Option.getD_none, Machine.define_self,
      Machine.define_of_lt _ h1.lt, h1.value]
    exact meets_shr hlhs hres (shiftCount_immediate _)

/-- The right shifts by CL. -/
theorem reaches_shiftRightCl {shift : ValueId → ValueId → Width → Lowering ValueId}
    {opcode : Opcode} (value : BitVec 64 → Nat → BitVec 64)
    (update : Width → BitVec 64 → BitVec 64 → BitVec 64 → BitVec 64 → BitVec 64)
    {p : BitVec (widthOf bits).bits × FlagEffects} (hb : bits ∈ [32, 64])
    (hshift : ∀ a b n (m : Machine M), Computes rt (shift a b (widthOf bits)) n m
      (value (m.values a) (m.values b).toNat))
    (hk : opcode.kind = .flags)
    (hf : ∀ op l s c rflags, op.opcode = opcode → op.width = .i32 ∨ op.width = .i64 →
      flagUpdate op ⟨some l, some s, some c⟩ rflags = some (update op.width rflags l s c))
    (hv : (value ((widthOf bits).truncate (m.guest.regs r))
      (maskedCount (widthOf bits) (m.guest.regs .rcx))).setWidth _ = p.1)
    (he : p.2.Meets m.guest.rflags (update (widthOf bits) m.guest.rflags
      ((widthOf bits).truncate (m.guest.regs r))
      (value ((widthOf bits).truncate (m.guest.regs r))
        (maskedCount (widthOf bits) (m.guest.regs .rcx)))
      (m.guest.regs .rcx &&& countMask (widthOf bits)))) :
    Reaches rt (lowerShiftRightCl rip shift opcode r bits) n m m.guest
      (writing m.guest m.memory (widthOf bits) r p) := by
  have hmask : (if bits = 32 then 0x1F else 0x3F) = countMask (widthOf bits) := by
    rcases List.mem_pair.mp hb with rfl | rfl <;> rfl
  unfold lowerShiftRightCl
  simp only [ite_wide hb, hmask]
  refine (computes_readWide hb).then fun a n1 m1 h1 => computes_countOfCl.then fun b n2 m2 h2 =>
    (hshift a b n2 m2).then fun c n3 m3 h3 => ?_
  have ha : m2.values a = (widthOf bits).truncate (m.guest.regs r) :=
    (h2.keeps a h1.lt).trans h1.value
  have hb' : m2.values b = m.guest.regs .rcx &&& countMask (widthOf bits) := by
    rw [h2.value, h1.guest]
  have hc : m3.values c = value ((widthOf bits).truncate (m.guest.regs r))
      (maskedCount (widthOf bits) (m.guest.regs .rcx)) := by
    rw [h3.value, ha, hb', toNat_countMask]
  refine reaches_write_flags (h3.guest.trans (h2.guest.trans h1.guest))
    (h3.memory.trans (h2.memory.trans h1.memory)) ?_ hk (hf _ _ _ _ _ rfl (widthOf_wide hb)) ?_
  · rw [hc, hv]
  · rw [hc, h3.keeps a (h1.lt.trans_le h2.le), h3.keeps b h2.lt, ha, hb']
    exact he

theorem reaches_shrCl (hb : bits ∈ [32, 64]) :
    Reaches rt (lowerShiftRightCl rip (shiftRightLogicalBy rip) .updateShiftRightFlags r bits) n m
      m.guest (writing m.guest m.memory (widthOf bits) r (shr (readReg m.guest (widthOf bits) r)
        (maskedCount (widthOf bits) (m.guest.regs .rcx)))) := by
  have hlt := maskedCount_lt_64 (w := widthOf bits) (m.guest.regs .rcx)
  have hlhs := setWidth_truncate (w := widthOf bits) (m.guest.regs r)
  have hres := setWidth_shiftRight (w := widthOf bits) (v := (widthOf bits).truncate
    (m.guest.regs r)) rfl (maskedCount (widthOf bits) (m.guest.regs .rcx))
  refine reaches_shiftRightCl (fun v c => v >>> (c % 64)) updateShiftRightFlags hb
    (fun a b n m => computes_define rfl rfl) rfl ?_ ?_ ?_
  · intro op l s c rflags hop hw
    refine flagUpdate_shiftRight hop ?_
    rintro h
    rcases hw with hw | hw <;> rw [h] at hw <;> exact absurd hw (by decide)
  · rw [Nat.mod_eq_of_lt hlt, shr_value]
    exact hres
  · rw [Nat.mod_eq_of_lt hlt]
    exact meets_shr hlhs hres (by rw [shiftCount_eq, maskedCount_countMask])

theorem setWidth_arithmeticShift (hb : bits ∈ [32, 64]) (v : BitVec 64) {c : Nat}
    (hc : c < if widthOf bits = .i64 then 64 else 32) :
    (arithmeticShift (widthOf bits) v c).setWidth (widthOf bits).bits =
      (v.setWidth (widthOf bits).bits).sshiftRight c := by
  rcases List.mem_pair.mp hb with rfl | rfl
  · have hlt : c < 32 := hc
    have : arithmeticShift .i32 v c = ((v.setWidth 32).sshiftRight c).setWidth 64 := by
      rw [arithmeticShift, Nat.mod_eq_of_lt hlt]
    exact (congrArg (BitVec.setWidth 32) this).trans
      ((BitVec.setWidth_setWidth_of_le _ (by decide)).trans (BitVec.setWidth_eq _))
  · have hlt : c < 64 := hc
    have : arithmeticShift .i64 v c = v.sshiftRight c := by
      rw [arithmeticShift, Nat.mod_eq_of_lt hlt]
      rintro ⟨⟩
    exact ((congrArg (BitVec.setWidth 64) this).trans (BitVec.setWidth_eq _)).trans
      (congrArg (BitVec.sshiftRight · c) (BitVec.setWidth_eq v).symm)

theorem reaches_sarCl (hb : bits ∈ [32, 64]) :
    Reaches rt (lowerShiftRightCl rip (shiftRightArithmeticBy rip) .updateShiftRightArithmeticFlags
        r bits) n m
      m.guest (writing m.guest m.memory (widthOf bits) r (sar (readReg m.guest (widthOf bits) r)
        (maskedCount (widthOf bits) (m.guest.regs .rcx)))) := by
  have hlhs := setWidth_truncate (w := widthOf bits) (m.guest.regs r)
  have hres := setWidth_arithmeticShift hb ((widthOf bits).truncate (m.guest.regs r))
    (maskedCount_lt (w := widthOf bits) (m.guest.regs .rcx))
  rw [hlhs] at hres
  refine reaches_shiftRightCl (arithmeticShift (widthOf bits)) updateShiftRightArithmeticFlags hb
    (fun a b n m => emits_shiftRightArithmeticBy rip (Computed.define _ _ _)) rfl
    (fun op l s c rflags hop hw => flagUpdate_shiftRightArithmetic hop hw) ?_
    (meets_sar hlhs hres ?_)
  · rw [sar_value]
    exact hres
  · rw [shiftCount_eq, maskedCount_countMask]

theorem reaches_sarImm (immediate : BitVec 64) :
    Reaches rt (lowerSarImm rip r bits immediate) n m m.guest
      (writing m.guest m.memory (widthOf bits) r (sar (readReg m.guest (widthOf bits) r)
        (maskedCount (widthOf bits) immediate))) := by
  refine Emits.bind (Emits.raiseIf fun hraise => ?_)
  have hb := mem_wide hraise
  have hbits : bits ∈ [8, 16, 32, 64] := List.mem_cons_of_mem _ (List.mem_cons_of_mem _ hb)
  have hlt := maskedCount_lt (w := widthOf bits) immediate
  have hlt' : maskedCount (widthOf bits) immediate < if widthOf bits = .i32 then 32 else 64 := by
    rcases List.mem_pair.mp hb with rfl | rfl <;> exact hlt
  simp only [ite_wide hb, immediateMasked_eq hbits]
  refine (computes_readWide hb).then fun a n1 m1 h1 =>
    Emits.bind (emits_shiftRightArithmetic _ hlt' ?_)
  have hlhs := setWidth_truncate (w := widthOf bits) (m.guest.regs r)
  have hres := setWidth_arithmeticShift hb ((widthOf bits).truncate (m.guest.regs r)) hlt
  rw [hlhs] at hres
  rw [h1.value]
  refine reaches_write_flags h1.guest h1.memory ?_ rfl
    (flagUpdate_shiftRightArithmetic rfl (widthOf_wide hb)) ?_
  · rw [Machine.define_self, sar_value]
    exact hres
  · simp only [Option.map_none, Option.getD_none, Machine.define_self,
      Machine.define_of_lt _ h1.lt, h1.value]
    exact meets_sar hlhs hres (shiftCount_immediate _)

end

/-! ### Rotates -/

section

variable {M E : Type} {rt : Runtime M E} {rip : GuestAddress} {n : Nat} {m : Machine M}
variable {r : Register} {bits : Nat} {w : Width}

theorem setWidth_hostResult (v : BitVec 64) :
    (w.hostResult v).setWidth w.bits = v.setWidth w.bits := by
  cases w <;> first | rfl | exact setWidth_truncate v

theorem hostResult_i64 (v : BitVec 64) : Width.hostResult .i64 v = v := rfl

theorem rol_value {k : Nat} (x : BitVec k) (c : Nat) : (rol x c).1 = x.rotateLeft c := by
  unfold rol
  split
  · next h => rw [h, BitVec.rotateLeft, Nat.zero_mod, BitVec.rotateLeftAux, BitVec.shiftLeft_zero,
      Nat.sub_zero, BitVec.ushiftRight_eq_zero (Nat.le_refl k), BitVec.or_zero]
  · rfl

theorem ror_value {k : Nat} (x : BitVec k) (c : Nat) : (ror x c).1 = x.rotateRight c := by
  unfold ror
  split
  · next h => rw [h, BitVec.rotateRight, Nat.zero_mod, BitVec.rotateRightAux,
      BitVec.ushiftRight_zero, Nat.sub_zero, BitVec.shiftLeft_eq_zero (Nat.le_refl k),
      BitVec.or_zero]
  · rfl

/-- A rotate to the left composed of two shifts. -/
theorem setWidth_rotateLeft {v : BitVec 64} {x : BitVec w.bits} (h : v = x.setWidth 64)
    {k : Nat} (hk : w.bits = k) (c : Nat) :
    (v <<< (c % k) ||| v >>> (k - c % k)).setWidth w.bits = x.rotateLeft c := by
  subst hk
  have hx : v.setWidth w.bits = x := by
    rw [h, BitVec.setWidth_setWidth_of_le _ w.bits_le, BitVec.setWidth_eq]
  rw [BitVec.setWidth_or, setWidth_shiftLeft hx, setWidth_shiftRight h]
  rfl

/-- A rotate to the right composed of two shifts. -/
theorem setWidth_rotateRight {v : BitVec 64} {x : BitVec w.bits} (h : v = x.setWidth 64)
    {k : Nat} (hk : w.bits = k) {c : Nat} (hc : c < k) :
    (v >>> c ||| v <<< (k - c)).setWidth w.bits = x.rotateRight c := by
  subst hk
  have hx : v.setWidth w.bits = x := by
    rw [h, BitVec.setWidth_setWidth_of_le _ w.bits_le, BitVec.setWidth_eq]
  rw [BitVec.setWidth_or, setWidth_shiftLeft hx, setWidth_shiftRight h,
    BitVec.rotateRight_eq_rotateRightAux_of_lt hc]
  rfl

theorem merge_self (hw : w ≠ .i32) (v : BitVec 64) :
    w.merge v ((v.setWidth w.bits).setWidth 64) = v := by
  cases w with
  | i32 => exact absurd rfl hw
  | i64 => exact Width.truncate_i64 v
  | i16 =>
    rw [show ((v.setWidth (Width.bits .i16)).setWidth 64) = Width.truncate .i16 v from rfl,
      ← Width.and_mask, Width.merge, BitVec.and_assoc, BitVec.and_self,
      ← BitVec.and_or_distrib_left, BitVec.or_comm, BitVec.or_not_self, BitVec.and_allOnes]
    · rintro ⟨⟩
    · rintro ⟨⟩
  | i8 =>
    rw [show ((v.setWidth (Width.bits .i8)).setWidth 64) = Width.truncate .i8 v from rfl,
      ← Width.and_mask, Width.merge, BitVec.and_assoc, BitVec.and_self,
      ← BitVec.and_or_distrib_left, BitVec.or_comm, BitVec.or_not_self, BitVec.and_allOnes]
    · rintro ⟨⟩
    · rintro ⟨⟩

/-- A value written back changes nothing, apart from the upper half at 32 bits. -/
theorem writeReg_readReg (hw : w ≠ .i32) (g : GuestState) (r : Register) :
    writeReg g w r (readReg g w r) = g := by
  unfold writeReg readReg GuestState.setReg
  rw [merge_self hw, Function.update_eq_self]

/-- A rotate by zero. -/
theorem reaches_rotateNone (hb : bits ∈ [16, 32, 64]) :
    Reaches rt (lowerRotateNone rip r bits (widthOf bits)) n m m.guest
      (writing m.guest m.memory (widthOf bits) r (readReg m.guest (widthOf bits) r, .none)) := by
  unfold lowerRotateNone
  split
  · refine (computes_readGuestRegister _ _ _).then fun a n1 m1 h1 =>
      reaches_write h1.guest h1.memory ?_ FlagEffects.meets_none
    rw [h1.value]
    exact setWidth_hostResult _
  · next hne =>
    have hw : widthOf bits ≠ .i32 := by
      simp only [List.mem_cons, List.not_mem_nil, or_false] at hb
      rcases hb with rfl | rfl | rfl
      · decide
      · exact absurd rfl hne
      · decide
    refine Emits.pure ⟨m.guest.rflags, FlagEffects.meets_none, ?_⟩
    rw [writeReg_readReg hw]

theorem computes_readRotated (hb : bits ∈ [16, 32, 64]) :
    Computes rt (readRotated rip r bits (widthOf bits)) n m
      ((widthOf bits).truncate (m.guest.regs r)) := by
  simp only [List.mem_cons, List.not_mem_nil, or_false] at hb
  rcases hb with rfl | rfl | rfl
  · refine Computes.bind (computes_readGuestRegister _ _ .i16) fun a n1 m1 h1 =>
      Computes.bind (v := 0xFFFF) (computes_define rfl rfl) fun b n2 m2 h2 => ?_
    have hand : Computes rt (bitAnd rip a b .i16) n2 m2 (m2.values a &&& m2.values b) :=
      computes_define rfl rfl
    rw [h2.value, h2.keeps a h1.lt, h1.value] at hand
    rwa [← Width.and_mask]
  · exact computes_readGuestRegister _ _ .i32
  · rw [show widthOf 64 = .i64 from rfl, Width.truncate_i64]
    exact computes_readGuestRegister _ _ .i64

theorem bits_widthOf (hb : bits ∈ [8, 16, 32, 64]) : (widthOf bits).bits = bits := by
  simp only [List.mem_cons, List.not_mem_nil, or_false] at hb
  rcases hb with rfl | rfl | rfl | rfl <;> rfl

theorem rotateCount (hb : bits ∈ [16, 32, 64]) (c : Nat) :
    (if widthOf bits = .i16 then
        shiftCount (widthOf bits) (BitVec.ofNat 64 (c % bits % 256)) % 16
      else shiftCount (widthOf bits) (BitVec.ofNat 64 (c % bits % 256))) =
      c % (widthOf bits).bits := by
  rw [shiftCount_eq, maskedCount, BitVec.toNat_ofNat]
  simp only [List.mem_cons, List.not_mem_nil, or_false] at hb
  rcases hb with rfl | rfl | rfl
  · show c % 16 % 256 % 2 ^ 64 % 32 % 16 = c % 16
    omega
  · show c % 32 % 256 % 2 ^ 64 % 32 = c % 32
    omega
  · show c % 64 % 256 % 2 ^ 64 % 64 = c % 64
    omega

/-- `ROL` by an immediate, unless the masked count is a multiple of the width other than zero. -/
theorem reaches_rolImm (immediate : BitVec 64)
    (hcount : bits ∈ [16, 32, 64] → maskedCount (widthOf bits) immediate % bits = 0 →
      maskedCount (widthOf bits) immediate = 0) :
    Reaches rt (lowerRolImm rip r bits immediate) n m m.guest
      (writing m.guest m.memory (widthOf bits) r (rol (readReg m.guest (widthOf bits) r)
        (maskedCount (widthOf bits) immediate))) := by
  refine Emits.bind (Emits.raiseIf fun hraise => ?_)
  have hb : bits ∈ [16, 32, 64] := by
    simp only [List.mem_cons, List.not_mem_nil, or_false]
    simp only [Bool.and_eq_false_iff, bne_eq_false_iff_eq] at hraise
    omega
  have hcount := hcount hb
  have hall : bits ∈ [8, 16, 32, 64] := List.mem_cons_of_mem _ hb
  have hw : (if bits = 16 then Width.i16 else if bits = 32 then .i32 else .i64) = widthOf bits := by
    simp only [List.mem_cons, List.not_mem_nil, or_false] at hb
    rcases hb with rfl | rfl | rfl <;> rfl
  have h8 : widthOf bits ≠ .i8 := by
    simp only [List.mem_cons, List.not_mem_nil, or_false] at hb
    rcases hb with rfl | rfl | rfl <;> decide
  have hbits := bits_widthOf hall
  have hle := (widthOf bits).bits_le
  simp only [hw, immediateMasked_eq hall]
  generalize hc : maskedCount (widthOf bits) immediate = c at hcount
  split
  · next hzero =>
    rw [hcount hzero]
    exact reaches_rotateNone hb
  · next hne =>
    have hlt : c % bits < bits := Nat.mod_lt _ (by
      rw [← hbits]
      exact (widthOf bits).bits_pos)
    refine (computes_readRotated hb).then fun a n1 m1 h1 =>
      Emits.bind (emits_shiftLeft _ (by omega) (Emits.bind (emits_shiftRightLogical _ (by omega)
        (Emits.bind (emits_bitOr _ ?_)))))
    have hres := setWidth_rotateLeft (w := widthOf bits)
      (v := (widthOf bits).truncate (m.guest.regs r)) rfl hbits c
    simp (disch := omega) only [Machine.define_self, Machine.define_of_ne,
      Machine.define_of_lt _ h1.lt, h1.value]
    rw [← setWidth_hostResult] at hres
    refine reaches_write_flags h1.guest h1.memory ?_ rfl (flagUpdate_rotateLeft rfl h8) ?_
    · rw [Machine.define_self, rol_value]
      exact hres
    · rw [Machine.define_self]
      exact meets_rol hres (rotateCount hb c) (by rwa [hbits])

/-- `ROL` of 32 bits by CL. -/
theorem reaches_rolCl :
    Reaches rt (lowerRolCl rip r bits) n m m.guest
      (writing m.guest m.memory (widthOf bits) r (rol (readReg m.guest (widthOf bits) r)
        (maskedCount (widthOf bits) (m.guest.regs .rcx)))) := by
  refine Emits.bind (Emits.raiseIf fun hraise => ?_)
  obtain rfl : bits = 32 := by simpa using hraise
  refine Emits.bind (emits_readGuestRegister _ (Emits.bind (emits_readGuestRegister _
    (Emits.bind (emits_constant _ (Emits.bind (emits_bitAnd _ (Emits.bind (emits_shiftLeftBy _
    (Emits.bind (emits_constant _ (Emits.bind (emits_sub _ (Emits.bind (emits_bitAnd _
    (Emits.bind (emits_shiftRightLogicalBy _ (Emits.bind (emits_bitOr _ ?_)))))))))))))))))))
  simp (disch := omega) only [Machine.define_self, Machine.define_of_ne, Machine.define_guest,
    hostResult_i64]
  have hcount := toNat_countMask (w := .i32) (m.guest.regs .rcx)
  have hlt := maskedCount_lt (w := .i32) (m.guest.regs .rcx)
  rw [if_neg (by decide)] at hlt
  rw [show (0x1F : BitVec 64) = countMask .i32 from rfl]
  have hneg : ((0 - (m.guest.regs .rcx &&& countMask .i32)) &&& countMask .i32).toNat =
      (32 - maskedCount .i32 (m.guest.regs .rcx)) % 32 := by
    rw [toNat_countMask, maskedCount, if_neg (by decide), BitVec.toNat_sub, hcount]
    show (2 ^ 64 - maskedCount .i32 (m.guest.regs .rcx) + 0) % 2 ^ 64 % 32 = _
    omega
  rw [hcount, hneg, Nat.mod_eq_of_lt (show maskedCount .i32 (m.guest.regs .rcx) < 64 by omega),
    Nat.mod_eq_of_lt (show (32 - maskedCount .i32 (m.guest.regs .rcx)) % 32 < 64 by omega)]
  have hres : ((Width.truncate .i32 (m.guest.regs r)) <<< maskedCount .i32 (m.guest.regs .rcx) |||
      (Width.truncate .i32 (m.guest.regs r)) >>>
        ((32 - maskedCount .i32 (m.guest.regs .rcx)) % 32)).setWidth (Width.bits .i32) =
      (readReg m.guest .i32 r).rotateLeft (maskedCount .i32 (m.guest.regs .rcx)) := by
    generalize maskedCount .i32 (m.guest.regs .rcx) = c at hlt
    by_cases h0 : c = 0
    · rw [h0, ← rol_value, rol, if_pos rfl]
      rw [show (32 - 0) % 32 = 0 from rfl, BitVec.shiftLeft_zero, BitVec.ushiftRight_zero,
        BitVec.or_self, setWidth_truncate]
      rfl
    · have hrotate := setWidth_rotateLeft (w := .i32) (v := Width.truncate .i32 (m.guest.regs r))
        rfl rfl c
      rw [Nat.mod_eq_of_lt (show c < Width.bits .i32 from hlt)] at hrotate
      rw [Nat.mod_eq_of_lt (show 32 - c < 32 by omega)]
      exact hrotate
  rw [← setWidth_hostResult] at hres
  refine reaches_write_flags rfl rfl ?_ rfl (flagUpdate_rotateLeft rfl (by rintro ⟨⟩)) ?_
  · rw [Machine.define_self, rol_value]
    exact hres
  · simp (disch := omega) only [Machine.define_self, Machine.define_of_ne, Option.map_some,
      Option.getD_some]
    refine meets_rol hres ?_ ?_
    · rw [if_neg (by decide)]
      exact ((shiftCount_eq (w := .i32) _).trans (maskedCount_countMask _)).trans
        (Nat.mod_eq_of_lt hlt).symm
    · intro h
      exact (Nat.mod_eq_of_lt (show _ < Width.bits .i32 from hlt)).symm.trans h

/-- `ROR` by an immediate. -/
theorem reaches_rorImm (immediate : BitVec 64) :
    Reaches rt (lowerRorImm rip r bits immediate) n m m.guest
      (writing m.guest m.memory (widthOf bits) r (ror (readReg m.guest (widthOf bits) r)
        (maskedCount (widthOf bits) immediate))) := by
  refine Emits.bind (Emits.raiseIf fun hraise => ?_)
  have hb := mem_wide hraise
  have hall : bits ∈ [8, 16, 32, 64] := List.mem_cons_of_mem _ (List.mem_cons_of_mem _ hb)
  have hrotated : bits ∈ [16, 32, 64] := List.mem_cons_of_mem _ hb
  have hw : (if bits = 64 then Width.i64 else .i32) = widthOf bits := by
    rcases List.mem_pair.mp hb with rfl | rfl <;> rfl
  have hbits := bits_widthOf hall
  have hlt : maskedCount (widthOf bits) immediate < bits := by
    have := maskedCount_lt (w := widthOf bits) immediate
    rcases List.mem_pair.mp hb with rfl | rfl <;> exact this
  have hle := (widthOf bits).bits_le
  simp only [hw, immediateMasked_eq hall]
  split
  · next hzero =>
    rw [hzero]
    exact reaches_rotateNone hrotated
  · next hne =>
    refine (computes_readWide hb).then fun a n1 m1 h1 =>
      Emits.bind (emits_shiftRightLogical _ (by omega) (Emits.bind (emits_shiftLeft _ (by omega)
        (Emits.bind (emits_bitOr _ ?_)))))
    have hres := setWidth_rotateRight (w := widthOf bits)
      (v := (widthOf bits).truncate (m.guest.regs r)) rfl hbits hlt
    simp (disch := omega) only [Machine.define_self, Machine.define_of_ne,
      Machine.define_of_lt _ h1.lt, h1.value]
    rw [← setWidth_hostResult] at hres
    refine reaches_write_flags h1.guest h1.memory ?_ rfl
      (flagUpdate_rotateRight rfl (widthOf_wide hb)) ?_
    · rw [Machine.define_self, ror_value]
      exact hres
    · rw [Machine.define_self]
      exact meets_ror hres (shiftCount_immediate _)

/-- `ROR` of 64 bits by CL. -/
theorem reaches_rorCl :
    Reaches rt (lowerRorCl rip r bits) n m m.guest
      (writing m.guest m.memory (widthOf bits) r (ror (readReg m.guest (widthOf bits) r)
        (maskedCount (widthOf bits) (m.guest.regs .rcx)))) := by
  refine Emits.bind (Emits.raiseIf fun hraise => ?_)
  obtain rfl : bits = 64 := by simpa using hraise
  refine Emits.bind (emits_readGuestRegister _ (Emits.bind (emits_readGuestRegister _
    (Emits.bind (emits_constant _ (Emits.bind (emits_bitAnd _
    (Emits.bind (emits_shiftRightLogicalBy _ (Emits.bind (emits_constant _
    (Emits.bind (emits_sub _ (Emits.bind (emits_shiftLeftBy _
    (Emits.bind (emits_bitOr _ ?_)))))))))))))))))
  simp (disch := omega) only [Machine.define_self, Machine.define_of_ne, Machine.define_guest,
    hostResult_i64]
  have hcount := toNat_countMask (w := .i64) (m.guest.regs .rcx)
  have hlt := maskedCount_lt_64 (w := .i64) (m.guest.regs .rcx)
  rw [show (0x3F : BitVec 64) = countMask .i64 from rfl]
  have hcomplement : (64 - (m.guest.regs .rcx &&& countMask .i64)).toNat =
      64 - maskedCount .i64 (m.guest.regs .rcx) := by
    rw [BitVec.toNat_sub, hcount]
    show (2 ^ 64 - maskedCount .i64 (m.guest.regs .rcx) + 64) % 2 ^ 64 = _
    omega
  rw [hcount, hcomplement, Nat.mod_eq_of_lt hlt]
  have hres : (m.guest.regs r >>> maskedCount .i64 (m.guest.regs .rcx) |||
      m.guest.regs r <<< ((64 - maskedCount .i64 (m.guest.regs .rcx)) % 64)).setWidth
        (Width.bits .i64) =
      (readReg m.guest .i64 r).rotateRight (maskedCount .i64 (m.guest.regs .rcx)) := by
    generalize maskedCount .i64 (m.guest.regs .rcx) = c at hlt
    by_cases h0 : c = 0
    · rw [h0, ← ror_value, ror, if_pos rfl]
      rw [show (64 - 0) % 64 = 0 from rfl, BitVec.shiftLeft_zero, BitVec.ushiftRight_zero,
        BitVec.or_self]
      rfl
    · have hrotate := setWidth_rotateRight (w := .i64) (v := Width.truncate .i64 (m.guest.regs r))
        rfl rfl hlt
      rw [Width.truncate_i64] at hrotate
      rw [Nat.mod_eq_of_lt (show 64 - c < 64 by omega)]
      exact hrotate
  refine reaches_write_flags rfl rfl ?_ rfl (flagUpdate_rotateRight rfl (.inr rfl)) ?_
  · rw [Machine.define_self, ror_value]
    exact hres
  · simp (disch := omega) only [Machine.define_self, Machine.define_of_ne, Option.map_some,
      Option.getD_some]
    exact meets_ror hres ((shiftCount_eq (w := .i64) _).trans (maskedCount_countMask _))

end

/-! ### Double shifts, byte swaps and the operations on one register -/

section

variable {M E : Type} {rt : Runtime M E} {rip : GuestAddress} {n : Nat} {m : Machine M}
variable {r s : Register} {bits : Nat} {w : Width}

theorem shiftRightDouble_eq (x y : BitVec 64) {c : Nat} (hc : c < 64) :
    ((y ++ x) >>> c).setWidth 64 = x >>> c ||| y <<< (64 - c) := by
  apply BitVec.eq_of_getLsbD_eq
  intro i hi
  simp only [BitVec.getLsbD_setWidth, BitVec.getLsbD_ushiftRight, BitVec.getLsbD_append,
    BitVec.getLsbD_or, BitVec.getLsbD_shiftLeft, hi, decide_true, Bool.true_and]
  by_cases hlow : c + i < 64
  · simp [hlow, show i < 64 - c by omega]
  · rw [BitVec.getLsbD_of_ge x (c + i) (by omega)]
    simp [hlow, show ¬i < 64 - c by omega, show c + i - 64 = i - (64 - c) by omega]

theorem shrd_value (x y : BitVec 64) (c : Nat) :
    (shrd x y c).1 = x >>> c ||| y <<< (64 - c) := by
  unfold shrd
  split
  · next h => rw [h, BitVec.ushiftRight_zero, Nat.sub_zero, BitVec.shiftLeft_eq_zero (by decide),
      BitVec.or_zero]
  · rfl

theorem shld_value (x y : BitVec 64) (c : Nat) :
    (shld x y c).1 = x <<< c ||| y >>> (64 - c) := by
  unfold shld
  split
  · next h => rw [h, BitVec.shiftLeft_zero, Nat.sub_zero, BitVec.ushiftRight_eq_zero (by decide),
      BitVec.or_zero]
  · rfl

theorem reaches_shrd (immediate : BitVec 64) :
    Reaches rt (lowerShrd rip r s immediate) n m m.guest
      (writing m.guest m.memory .i64 r (shrd (readReg m.guest .i64 r) (readReg m.guest .i64 s)
        (maskedCount .i64 immediate))) := by
  have hcount : (immediate &&& 0x3F).toNat = maskedCount .i64 immediate :=
    toNat_countMask (w := .i64) immediate
  have hlt := maskedCount_lt_64 (w := .i64) immediate
  unfold lowerShrd
  simp only [hcount]
  refine Emits.bind (emits_readGuestRegister _ (Emits.bind (emits_readGuestRegister _
    (Emits.bind (emits_shiftRightDouble _ hlt ?_)))))
  simp (disch := omega) only [Machine.define_self, Machine.define_of_ne, Machine.define_guest,
    hostResult_i64]
  rw [shiftRightDouble_eq _ _ hlt]
  have hself : ∀ q : Register, readReg m.guest .i64 q = m.guest.regs q :=
    fun q => BitVec.setWidth_eq _
  rw [hself, hself]
  refine reaches_write_flags rfl rfl ?_ rfl rfl ?_
  · rw [Machine.define_self]
    exact (BitVec.setWidth_eq _).trans (shrd_value _ _ _).symm
  · simp (disch := omega) only [Machine.define_self, Machine.define_of_ne]
    exact meets_shrd rfl (shiftCount_immediate (w := .i64) _)

theorem computes_shldValue {a b : ValueId} (ha : a < n) (hb : b < n) {c : Nat} (hc : c < 64) :
    Computes rt (shldValue rip a b c) n m (m.values a <<< c ||| m.values b >>> (64 - c)) := by
  unfold shldValue
  split
  · refine Computes.bind (emits_shiftLeft rip hc (Computed.define _ _ _)) fun p n1 m1 h1 =>
      Computes.bind (emits_shiftRightLogical rip (by omega) (Computed.define _ _ _))
        fun q n2 m2 h2 => ?_
    have hor : Computes rt (bitOr rip p q .i64) n2 m2 (m2.values p ||| m2.values q) :=
      computes_define rfl rfl
    rwa [h2.value, h2.keeps p h1.lt, h1.value, h1.keeps b hb] at hor
  · next hzero =>
    refine Computes.pure ha ?_
    rw [not_not.mp hzero, BitVec.shiftLeft_zero, Nat.sub_zero,
      BitVec.ushiftRight_eq_zero (by decide), BitVec.or_zero]

theorem reaches_shld {sourceBits : Nat} (immediate : BitVec 64) :
    Reaches rt (lowerShld rip r bits s sourceBits immediate) n m m.guest
      (writing m.guest m.memory (widthOf bits) r (shld (readReg m.guest (widthOf bits) r)
        (readReg m.guest (widthOf bits) s) (maskedCount (widthOf bits) immediate))) := by
  refine Emits.bind (Emits.raiseIf fun hraise => ?_)
  obtain ⟨rfl, -⟩ : bits = 64 ∧ sourceBits = 64 := by simpa using hraise
  have hcount : (immediate &&& 0x3F).toNat = maskedCount .i64 immediate :=
    toNat_countMask (w := .i64) immediate
  have hlt := maskedCount_lt_64 (w := .i64) immediate
  simp only [hcount]
  refine (computes_readGuestRegister _ _ .i64).then fun a n1 m1 h1 =>
    (computes_readGuestRegister _ _ .i64).then fun b n2 m2 h2 =>
    (computes_shldValue (h1.lt.trans_le h2.le) h2.lt hlt).then fun c n3 m3 h3 => ?_
  have ha : m3.values a = m.guest.regs r := by
    rw [h3.keeps a (h1.lt.trans_le h2.le), h2.keeps a h1.lt, h1.value]
    rfl
  have hc : m3.values c = m.guest.regs r <<< maskedCount .i64 immediate |||
      m.guest.regs s >>> (64 - maskedCount .i64 immediate) := by
    rw [h3.value, h2.value, h2.keeps a h1.lt, h1.value, h1.guest]
    rfl
  have hself : ∀ q : Register, readReg m.guest .i64 q = m.guest.regs q :=
    fun q => BitVec.setWidth_eq _
  rw [show widthOf 64 = .i64 from rfl, hself, hself]
  refine reaches_write_flags (h3.guest.trans (h2.guest.trans h1.guest))
    (h3.memory.trans (h2.memory.trans h1.memory)) ?_ rfl (flagUpdate_shiftLeft rfl nofun) ?_
  · rw [hc]
    exact (BitVec.setWidth_eq _).trans (shld_value _ _ _).symm
  · rw [ha, Option.map_none, Option.getD_none]
    exact meets_shld hc (shiftCount_immediate (w := .i64) _) hlt

theorem toNat_append_byte {k : Nat} (a : BitVec k) (b : BitVec 8) :
    (a ++ b).toNat = a.toNat * 256 + b.toNat := by
  rw [BitVec.toNat_append, ← Nat.shiftLeft_add_eq_or_of_lt b.isLt, Nat.shiftLeft_eq]

theorem toNat_byte (v : BitVec 64) (j : Nat) :
    (v >>> (8 * j)).toNat % 2 ^ 8 = v.toNat / 256 ^ j % 256 := by
  rw [BitVec.toNat_ushiftRight, Nat.shiftRight_eq_div_pow, Nat.pow_mul]
  rfl

theorem reverseBytes32_eq (x : BitVec 32) :
    (reverseBytes32 (x.setWidth 64)).setWidth 32 = bswap x := by
  apply BitVec.eq_of_toNat_eq
  have hx : (x.setWidth 64).toNat = x.toNat := BitVec.toNat_setWidth_of_le (by decide)
  simp only [reverseBytes32, bswap, BitVec.toNat_setWidth, toNat_append_byte, toNat_byte, hx,
    BitVec.toNat_ofNat, Nat.reduceDiv, show List.range 4 = [0, 1, 2, 3] from rfl, List.foldl_cons,
    List.foldl_nil, Nat.zero_mul, Nat.zero_add]
  exact Nat.mod_mod_of_dvd _ (by decide)

theorem reverseBytes64_eq (x : BitVec 64) : reverseBytes64 x = bswap x := by
  apply BitVec.eq_of_toNat_eq
  simp only [reverseBytes64, bswap, BitVec.toNat_setWidth, toNat_append_byte, toNat_byte,
    BitVec.toNat_ofNat, Nat.reduceDiv, show List.range 8 = [0, 1, 2, 3, 4, 5, 6, 7] from rfl,
    List.foldl_cons, List.foldl_nil, Nat.zero_mul, Nat.zero_add]

theorem reaches_bswap :
    Reaches rt (lowerBswap rip r bits) n m m.guest
      (writing m.guest m.memory (widthOf bits) r (bswap (readReg m.guest (widthOf bits) r),
        .none)) := by
  refine Emits.bind (Emits.raiseIf fun hraise => ?_)
  have hb := mem_wide hraise
  simp only [ite_wide hb]
  refine (computes_readWide hb).then fun a n1 m1 h1 => Emits.bind (emits_byteSwap _ ?_)
  refine reaches_write h1.guest h1.memory ?_ FlagEffects.meets_none
  rw [Machine.define_self, h1.value]
  rcases List.mem_pair.mp hb with rfl | rfl
  · exact reverseBytes32_eq _
  · refine (BitVec.setWidth_eq _).trans ((reverseBytes64_eq _).trans (congrArg bswap ?_))
    exact (Width.truncate_i64 _).trans (BitVec.setWidth_eq _).symm

theorem reaches_not :
    Reaches rt (lowerNot rip r bits) n m m.guest
      (writing m.guest m.memory (widthOf bits) r (~~~readReg m.guest (widthOf bits) r,
        .none)) := by
  refine Emits.bind (Emits.raiseIf fun hraise => ?_)
  have hb : bits = 8 ∨ bits = 32 ∨ bits = 64 := by
    simp only [Bool.and_eq_false_iff, bne_eq_false_iff_eq] at hraise
    omega
  -- the mask covers the width in each case, and what is above it is not written
  rcases hb with rfl | rfl | rfl <;>
    refine Emits.bind (emits_readGuestRegister _ (Emits.bind (emits_constant _
      (Emits.bind (emits_bitXor _ (reaches_write rfl rfl ?_ FlagEffects.meets_none))))))
  all_goals
    simp (disch := omega) only [Machine.define_self, Machine.define_of_ne]
  · show (m.guest.regs r ^^^ 0xFF).setWidth 8 = ~~~((m.guest.regs r).setWidth 8)
    rw [BitVec.setWidth_xor]
    exact BitVec.xor_allOnes
  · show ((Width.truncate .i32 (Width.truncate .i32 (m.guest.regs r) ^^^
      Width.truncate .i32 0xFFFFFFFF)).setWidth 32) = ~~~((m.guest.regs r).setWidth 32)
    refine (setWidth_truncate (w := .i32) _).trans ?_
    refine BitVec.setWidth_xor.trans ?_
    refine (congrArg (· ^^^ _) (setWidth_truncate (w := .i32) _)).trans ?_
    exact BitVec.xor_allOnes
  · show (m.guest.regs r ^^^ BitVec.allOnes 64).setWidth 64 = ~~~((m.guest.regs r).setWidth 64)
    rw [BitVec.setWidth_eq, BitVec.setWidth_eq]
    exact BitVec.xor_allOnes

theorem hostResult_zero : w.hostResult 0 = 0 := by
  cases w <;> rfl

theorem reaches_neg :
    Reaches rt (lowerNeg rip r bits) n m m.guest
      (writing m.guest m.memory (widthOf bits) r (neg (readReg m.guest (widthOf bits) r))) := by
  refine Emits.bind (Emits.raiseIf fun hraise => ?_)
  generalize widthOf bits = w
  refine Emits.bind (emits_constant _ (Emits.bind (emits_readGuestRegister _
    (Emits.bind (emits_sub _ ?_)))))
  simp (disch := omega) only [Machine.define_self, Machine.define_of_ne, Machine.define_guest,
    hostResult_zero]
  have hv := setWidth_hostResult (w := w) (m.guest.regs r)
  have hres : (w.hostResult (0 - w.hostResult (m.guest.regs r))).setWidth w.bits =
      -readReg m.guest w r := by
    rw [setWidth_hostResult, show (0 : BitVec 64) - w.hostResult (m.guest.regs r) =
      -w.hostResult (m.guest.regs r) from BitVec.zero_sub _, BitVec.setWidth_neg_of_le w.bits_le, hv]
    rfl
  refine reaches_write_flags rfl rfl ?_ rfl rfl ?_
  · rw [Machine.define_self, hres]
    rfl
  · simp (disch := omega) only [Machine.define_self, Machine.define_of_ne]
    exact meets_neg hv hres

end

end X86

end Rosa
