import Rosa.X86.Operations

/-!
# The divide helpers

`divideUnsignedByte`, `divideUnsignedDword`, `divideSignedDword` and `divideUnsignedQword` of
`dbt/RuntimeHelpers.cpp`. A quotient and a remainder are specified by the equation of the division
and the sign of the remainder (`Division`); there is one such pair for each dividend and divisor
(`division_iff`). `divideHelpers_exact` says that the helpers fault exactly when the divisor is zero
or the quotient has no place in its register, and write the pair otherwise.
-/

namespace Rosa

namespace X86

/-! ## Quotients and remainders -/

/-- The quotient and the remainder of a division that rounds towards zero. -/
structure Division (dividend divisor quotient remainder : Int) : Prop where
  equation : dividend = quotient * divisor + remainder
  smaller : |remainder| < |divisor|
  sign : remainder = 0 ∨ remainder.sign = dividend.sign

theorem Division.divisor_ne_zero {a b q r : Int} (h : Division a b q r) : b ≠ 0 := by
  rintro rfl
  have := h.smaller
  rw [abs_zero] at this
  exact absurd this (not_lt.mpr (abs_nonneg r))

/-- A remainder of the sign of the dividend. -/
theorem remainder_sign {a r : Int} :
    r = 0 ∨ r.sign = a.sign ↔ r = 0 ∨ 0 < a ∧ 0 < r ∨ a < 0 ∧ r < 0 := by
  rcases lt_trichotomy r 0 with hr | rfl | hr
  · rw [Int.sign_eq_neg_one_of_neg hr, eq_comm (a := -1), Int.sign_eq_neg_one_iff_neg]
    omega
  · simp
  · rw [Int.sign_eq_one_of_pos hr, eq_comm (a := 1), Int.sign_eq_one_iff_pos]
    omega

theorem division_iff {a b q r : Int} (hb : b ≠ 0) :
    Division a b q r ↔ a.tdiv b = q ∧ a.tmod b = r := by
  have hiff : Division a b q r ↔ r + b * q = a ∧ |r| < |b| ∧ (r = 0 ∨ r.sign = a.sign) := by
    constructor
    · rintro ⟨h1, h2, h3⟩
      exact ⟨by rw [h1]; ring, h2, h3⟩
    · rintro ⟨h1, h2, h3⟩
      exact ⟨by rw [← h1]; ring, h2, h3⟩
  rw [hiff, remainder_sign]
  rcases le_total 0 a with ha | ha
  · rw [Int.tdiv_tmod_unique ha hb]
    refine and_congr_right fun h => ?_
    rw [abs_lt, Int.abs_eq_natAbs]
    -- a remainder of zero is of either sign, and a dividend of zero has no other
    constructor
    · rintro ⟨h1, h2⟩
      omega
    · rintro ⟨h1, h2⟩
      refine ⟨⟨by omega, h2⟩, ?_⟩
      rcases h1.eq_or_lt with h0 | h0
      · exact .inl h0.symm
      · refine .inr (.inl ⟨lt_of_le_of_ne ha fun h0' => ?_, h0⟩)
        have hdvd : b ∣ r := ⟨-q, by rw [← h0'] at h; linarith⟩
        have := Int.natAbs_le_of_dvd_ne_zero hdvd h0.ne'
        omega
  · rw [Int.tdiv_tmod_unique' ha hb]
    refine and_congr_right fun h => ?_
    rw [abs_lt, Int.abs_eq_natAbs]
    constructor
    · rintro ⟨h1, h2⟩
      omega
    · rintro ⟨h1, h2⟩
      refine ⟨⟨h1, by omega⟩, ?_⟩
      rcases h2.eq_or_lt with h0 | h0
      · exact .inl h0
      · refine .inr (.inr ⟨lt_of_le_of_ne ha fun h0' => ?_, h0⟩)
        have hdvd : b ∣ r := ⟨-q, by rw [h0'] at h; linarith⟩
        have := Int.natAbs_le_of_dvd_ne_zero hdvd h0.ne
        omega

/-! ## The helpers -/

/-- What a divide helper is for : the opcode that calls it, the dividend and the divisor it reads,
the quotients that its register holds, the registers it writes, and the numbers of the host type
in which it divides, with the operands it refuses before it does. -/
structure DivideForm where
  opcode : Opcode
  dividend : GuestState → Int
  divisor : BitVec 64 → Int
  fits : Int → Prop
  write : GuestState → Int → Int → GuestState
  hostNumber : Int → Prop
  refused : Int → Int → Prop

/-- `DIV` of AX. AL and AH are written, the rest of RAX is kept. -/
def byteForm : DivideForm where
  opcode := .divideUnsignedByte
  dividend g := ((g.regs .rax).setWidth 16).toNat
  divisor d := (d.setWidth 8).toNat
  fits q := 0 ≤ q ∧ q < 2 ^ 8
  write g q r := g.setReg .rax
    ((g.regs .rax).extractLsb' 16 48 ++ (BitVec.ofInt 8 r ++ BitVec.ofInt 8 q))
  hostNumber x := 0 ≤ x ∧ x < 2 ^ 16
  refused _ _ := False

/-- The accumulators with a quotient and a remainder, extended with zeros. -/
def writeAccumulators (w : Nat) (g : GuestState) (q r : Int) : GuestState :=
  (g.setReg .rax ((BitVec.ofInt w q).setWidth 64)).setReg .rdx ((BitVec.ofInt w r).setWidth 64)

/-- `DIV` of EDX and EAX. -/
def dwordForm : DivideForm where
  opcode := .divideUnsignedDword
  dividend g := ((g.regs .rdx).setWidth 32 ++ (g.regs .rax).setWidth 32).toNat
  divisor d := (d.setWidth 32).toNat
  fits q := 0 ≤ q ∧ q < 2 ^ 32
  write := writeAccumulators 32
  hostNumber x := 0 ≤ x ∧ x < 2 ^ 64
  refused _ _ := False

/-- `IDIV` of EDX and EAX. The smallest dividend by -1 is refused before the division. -/
def signedDwordForm : DivideForm where
  opcode := .divideSignedDword
  dividend g := ((g.regs .rdx).setWidth 32 ++ (g.regs .rax).setWidth 32).toInt
  divisor d := (d.setWidth 32).toInt
  fits q := -2 ^ 31 ≤ q ∧ q < 2 ^ 31
  write := writeAccumulators 32
  hostNumber x := -2 ^ 63 ≤ x ∧ x < 2 ^ 63
  refused a b := a = -2 ^ 63 ∧ b = -1

/-- `DIV` of RDX and RAX. -/
def qwordForm : DivideForm where
  opcode := .divideUnsignedQword
  dividend g := (g.regs .rdx ++ g.regs .rax).toNat
  divisor d := d.toNat
  fits q := 0 ≤ q ∧ q < 2 ^ 64
  write := writeAccumulators 64
  hostNumber x := 0 ≤ x ∧ x < 2 ^ 128
  refused _ _ := False

/-- The helper of a form divides exactly. -/
structure DivideForm.Exact (form : DivideForm) : Prop where
  faults : ∀ {M E : Type} (rt : Runtime M E) (thrown : String → E) (op : Operation) (o : Operands)
    (g : GuestState) (memory : M) (d : BitVec 64), op.opcode = form.opcode → o.lhs = some d →
    ((∃ message, (withDivides rt thrown).helper op o g memory =
        (.error (thrown message), g, memory)) ↔
      form.divisor d = 0 ∨
        ∀ q r, Division (form.dividend g) (form.divisor d) q r → ¬form.fits q)
  returns : ∀ {M E : Type} (rt : Runtime M E) (thrown : String → E) (op : Operation) (o : Operands)
    (g : GuestState) (memory : M) (d : BitVec 64) (q r : Int), op.opcode = form.opcode →
    o.lhs = some d → Division (form.dividend g) (form.divisor d) q r → form.fits q →
    (withDivides rt thrown).helper op o g memory = (.ok (), form.write g q r, memory)
  inRange : ∀ (g : GuestState) (d : BitVec 64) (q r : Int),
    Division (form.dividend g) (form.divisor d) q r →
    ¬form.refused (form.dividend g) (form.divisor d) →
    form.hostNumber (form.dividend g) ∧ form.hostNumber (form.divisor d) ∧ form.hostNumber q ∧
      form.hostNumber r

/-- A helper as a function of its operands : it throws, or it writes the quotient and the
remainder that round towards zero. -/
theorem DivideForm.exact_of {form : DivideForm}
    {f : GuestState → BitVec 64 → Except String GuestState}
    (hf : divideHelper form.opcode = some f)
    (herror : ∀ g d, form.divisor d = 0 ∨ ¬form.fits ((form.dividend g).tdiv (form.divisor d)) →
      ∃ message, f g d = .error message)
    (hok : ∀ g d, form.divisor d ≠ 0 → form.fits ((form.dividend g).tdiv (form.divisor d)) →
      f g d = .ok (form.write g ((form.dividend g).tdiv (form.divisor d))
        ((form.dividend g).tmod (form.divisor d))))
    (hrange : ∀ g d, form.divisor d ≠ 0 → ¬form.refused (form.dividend g) (form.divisor d) →
      form.hostNumber (form.dividend g) ∧ form.hostNumber (form.divisor d) ∧
        form.hostNumber ((form.dividend g).tdiv (form.divisor d)) ∧
        form.hostNumber ((form.dividend g).tmod (form.divisor d))) : form.Exact where
  faults := by
    intro M E rt thrown op o g memory d hop hd
    have hrun : ∀ result, f g d = result → (withDivides rt thrown).helper op o g memory =
        result.casesOn (fun message => (.error (thrown message), g, memory))
          fun g' => (.ok (), g', memory) := by
      intro result hresult
      cases result with
      | ok g' => simp only [withDivides, hop, hf, hd, hresult]
      | error message => simp only [withDivides, hop, hf, hd, hresult]
    constructor
    · rintro ⟨message, h⟩
      by_contra hnot
      obtain ⟨h0, hq⟩ := not_or.mp hnot
      have hfits : form.fits ((form.dividend g).tdiv (form.divisor d)) := by
        by_contra hfits
        refine hq fun q r hdiv => ?_
        obtain ⟨rfl, -⟩ := (division_iff h0).mp hdiv
        exact hfits
      rw [hrun _ (hok g d h0 hfits)] at h
      simp at h
    · intro h
      have : form.divisor d = 0 ∨ ¬form.fits ((form.dividend g).tdiv (form.divisor d)) := by
        by_cases h0 : form.divisor d = 0
        · exact .inl h0
        · exact .inr (h.resolve_left h0 _ _ ((division_iff h0).mpr ⟨rfl, rfl⟩))
      obtain ⟨message, hm⟩ := herror g d this
      exact ⟨message, by rw [hrun _ hm]⟩
  returns := by
    intro M E rt thrown op o g memory d q r hop hd hdiv hfits
    obtain ⟨rfl, rfl⟩ := (division_iff hdiv.divisor_ne_zero).mp hdiv
    simp only [withDivides, hop, hf, hd, hok g d hdiv.divisor_ne_zero hfits]
  inRange := by
    intro g d q r hdiv hrefused
    obtain ⟨rfl, rfl⟩ := (division_iff hdiv.divisor_ne_zero).mp hdiv
    exact hrange g d hdiv.divisor_ne_zero hrefused

/-! ### The unsigned forms -/

theorem natCast_fits {n k : Nat} : 0 ≤ (n : Int) ∧ (n : Int) < 2 ^ k ↔ n < 2 ^ k := by
  constructor
  · rintro ⟨-, h⟩
    exact_mod_cast h
  · intro h
    exact ⟨Int.natCast_nonneg n, by exact_mod_cast h⟩

/-- Numbers of a host type are closed under division. -/
theorem natCast_inRange {a b k : Nat} (ha : a < 2 ^ k) (hb : b < 2 ^ k) :
    (0 ≤ (a : Int) ∧ (a : Int) < 2 ^ k) ∧ (0 ≤ (b : Int) ∧ (b : Int) < 2 ^ k) ∧
      (0 ≤ (a : Int).tdiv b ∧ (a : Int).tdiv b < 2 ^ k) ∧
      (0 ≤ (a : Int).tmod b ∧ (a : Int).tmod b < 2 ^ k) := by
  rw [← Int.ofNat_tdiv, ← Int.ofNat_tmod]
  exact ⟨natCast_fits.mpr ha, natCast_fits.mpr hb,
    natCast_fits.mpr ((Nat.div_le_self a b).trans_lt ha),
    natCast_fits.mpr ((Nat.mod_le a b).trans_lt ha)⟩

theorem natCast_toNat_eq_zero {k : Nat} {b : BitVec k} : (b.toNat : Int) = 0 ↔ b = 0 := by
  rw [Int.natCast_eq_zero]
  exact ⟨fun h => BitVec.eq_of_toNat_eq h, fun h => by rw [h]; rfl⟩

/-- Two bytes over the rest of a register. -/
theorem bytes_eq (v : BitVec 64) {q r : Nat} (hq : q < 2 ^ 8) (hr : r < 2 ^ 8) :
    (v &&& ~~~(0xFFFF : BitVec 64)) |||
        (BitVec.ofNat 16 q ||| BitVec.ofNat 16 r <<< 8).setWidth 64 =
      v.extractLsb' 16 48 ++ (BitVec.ofNat 8 r ++ BitVec.ofNat 8 q) := by
  have hq8 : ∀ k, 8 ≤ k → q.testBit k = false := fun k hk =>
    Nat.testBit_lt_two_pow (hq.trans_le (Nat.pow_le_pow_right (by decide) hk))
  have hr8 : ∀ k, 8 ≤ k → r.testBit k = false := fun k hk =>
    Nat.testBit_lt_two_pow (hr.trans_le (Nat.pow_le_pow_right (by decide) hk))
  apply BitVec.eq_of_getLsbD_eq
  intro i hi
  have hmask : (0xFFFF : BitVec 64).getLsbD i = decide (i < 16) := by
    revert i
    decide
  simp only [BitVec.getLsbD_or, BitVec.getLsbD_and, BitVec.getLsbD_not, hmask,
    BitVec.getLsbD_setWidth, BitVec.getLsbD_append, BitVec.getLsbD_extractLsb',
    BitVec.getLsbD_shiftLeft, BitVec.getLsbD_ofNat, hi, decide_true, Bool.true_and]
  by_cases h8 : i < 8
  · simp [h8, show i < 16 by omega]
  · by_cases h16 : i < 16
    · simp [h8, h16, hq8 i (by omega), show i - 8 < 8 by omega, show i - 8 < 16 by omega]
    · simp [h8, h16, show i - 16 < 48 by omega, show 16 + (i - 16) = i by omega]

theorem byteForm_exact : byteForm.Exact := by
  refine DivideForm.exact_of rfl (fun g d h => ?_) (fun g d h0 h => ?_) fun g d _ _ => ?_
  · dsimp only [byteForm] at h
    rw [natCast_toNat_eq_zero, ← Int.ofNat_tdiv, natCast_fits] at h
    unfold divideUnsignedByte
    rcases h with h | h
    · exact ⟨_, if_pos h⟩
    · dsimp only
      split
      · exact ⟨_, rfl⟩
      · exact ⟨_, if_pos (not_lt.mp h)⟩
  · dsimp only [byteForm] at h h0 ⊢
    rw [← Int.ofNat_tdiv, natCast_fits] at h
    rw [Ne, natCast_toNat_eq_zero] at h0
    have hr : ((g.regs .rax).setWidth 16).toNat % (d.setWidth 8).toNat < 2 ^ 8 :=
      (Nat.mod_lt _ (Nat.pos_of_ne_zero fun h => h0 (BitVec.eq_of_toNat_eq h))).trans (d.setWidth 8).isLt
    simp only [divideUnsignedByte, if_neg h0, if_neg (not_le.mpr h), ← Int.ofNat_tdiv,
      ← Int.ofNat_tmod, BitVec.ofInt_natCast, bytes_eq _ h hr]
  · exact natCast_inRange ((g.regs .rax).setWidth 16).isLt
      ((d.setWidth 8).isLt.trans (by decide))

/-- The helpers of the wider forms. -/
theorem divideUnsigned_exact {form : DivideForm} {w : Width} {zero overflow : String}
    (hf : divideHelper form.opcode = some (divideUnsigned w zero overflow))
    (hdividend : ∀ g, form.dividend g =
      (((g.regs .rdx).setWidth w.bits ++ (g.regs .rax).setWidth w.bits).toNat : Nat))
    (hdivisor : ∀ d, form.divisor d = ((d.setWidth w.bits).toNat : Nat))
    (hfits : ∀ q, form.fits q ↔ 0 ≤ q ∧ q < 2 ^ w.bits)
    (hwrite : form.write = writeAccumulators w.bits)
    (hnumber : form.hostNumber = fun x => 0 ≤ x ∧ x < 2 ^ (w.bits + w.bits)) : form.Exact := by
  have happend : ∀ g : GuestState,
      ((g.regs .rdx).setWidth w.bits ++ (g.regs .rax).setWidth w.bits).toNat =
        ((g.regs .rdx).setWidth w.bits).toNat * 2 ^ w.bits +
          ((g.regs .rax).setWidth w.bits).toNat := by
    intro g
    rw [BitVec.toNat_append, ← Nat.shiftLeft_add_eq_or_of_lt (BitVec.isLt _), Nat.shiftLeft_eq]
  refine DivideForm.exact_of hf (fun g d h => ?_) (fun g d h0 h => ?_) fun g d _ _ => ?_
  · rw [hdivisor, hdividend, hfits, ← Int.ofNat_tdiv, natCast_fits, Int.natCast_eq_zero,
      happend] at h
    unfold divideUnsigned
    rcases h with h | h
    · exact ⟨_, if_pos h⟩
    · dsimp only
      split
      · exact ⟨_, rfl⟩
      · exact ⟨_, if_pos (not_lt.mp h)⟩
  · rw [hdivisor, hdividend, hfits, ← Int.ofNat_tdiv, natCast_fits, happend] at h
    rw [hdivisor, Ne, Int.natCast_eq_zero] at h0
    have hr := (Nat.mod_lt (((g.regs .rdx).setWidth w.bits).toNat * 2 ^ w.bits +
      ((g.regs .rax).setWidth w.bits).toNat) (Nat.pos_of_ne_zero h0)).trans
        (d.setWidth w.bits).isLt
    have hextend : ∀ {n : Nat}, n < 2 ^ w.bits →
        BitVec.ofNat 64 n = (BitVec.ofNat w.bits n).setWidth 64 := by
      intro n hn
      apply BitVec.eq_of_toNat_eq
      rw [BitVec.toNat_setWidth, BitVec.toNat_ofNat, BitVec.toNat_ofNat, Nat.mod_eq_of_lt hn]
    rw [hwrite, hdividend, hdivisor, happend]
    simp only [divideUnsigned, if_neg h0, if_neg (not_le.mpr h), writeAccumulators,
      ← Int.ofNat_tdiv, ← Int.ofNat_tmod, BitVec.ofInt_natCast, hextend h, hextend hr]
  · rw [hdivisor, hdividend, hnumber]
    exact natCast_inRange (BitVec.isLt _)
      ((d.setWidth w.bits).isLt.trans_le (Nat.pow_le_pow_right (by decide) (by omega)))

theorem dwordForm_exact : dwordForm.Exact :=
  divideUnsigned_exact rfl (fun _ => rfl) (fun _ => rfl) (fun _ => Iff.rfl) rfl rfl

theorem qwordForm_exact : qwordForm.Exact := by
  have hself : ∀ v : BitVec 64, v.setWidth (Width.bits .i64) = v := fun v => BitVec.setWidth_eq v
  refine divideUnsigned_exact rfl (fun g => ?_) (fun d => ?_) (fun _ => Iff.rfl) rfl rfl
  · rw [hself, hself]
    rfl
  · rw [hself]
    rfl

/-! ### The signed form -/

/-- A quotient is not further from zero than its dividend, and a quotient by other than -1 of the
smallest number is none of the two furthest. -/
theorem tdiv_inRange {a b : Int} {k : Nat} (ha : -2 ^ k ≤ a ∧ a < 2 ^ k) (hb : b ≠ 0)
    (h : ¬(a = -2 ^ k ∧ b = -1)) : -2 ^ k ≤ a.tdiv b ∧ a.tdiv b < 2 ^ k := by
  have hle := Int.natAbs_tdiv_le_natAbs a b
  by_cases hlt : a.tdiv b < 2 ^ k
  · exact ⟨by omega, hlt⟩
  · -- only the smallest number is far enough from zero
    have hmin : a = -2 ^ k := by omega
    have hq : a.tdiv b = 2 ^ k := by omega
    have hdivision := (division_iff (r := a.tmod b) hb).mpr ⟨hq, rfl⟩
    have heq := hdivision.equation
    have hsign := remainder_sign.mp hdivision.sign
    have hpos : (0 : Int) < 2 ^ k := by positivity
    exfalso
    apply h
    refine ⟨hmin, ?_⟩
    rw [hmin] at heq hsign
    have hr : (-2 ^ k : Int).tmod b ≤ 0 := by omega
    by_contra hne
    rcases lt_or_gt_of_ne hb with hneg | hbpos
    · have : b ≤ -2 := by omega
      have hsmall := (abs_lt.mp hdivision.smaller).1
      rw [abs_of_neg hneg, hmin] at hsmall
      nlinarith
    · have hsmall := (abs_lt.mp hdivision.smaller).1
      rw [abs_of_pos hbpos, hmin] at hsmall
      nlinarith

theorem toInt_inRange {k : Nat} (v : BitVec (k + 1)) : -2 ^ k ≤ v.toInt ∧ v.toInt < 2 ^ k :=
  ⟨BitVec.le_toInt v, BitVec.toInt_lt⟩

theorem signedDwordForm_exact : signedDwordForm.Exact := by
  refine DivideForm.exact_of rfl (fun g d h => ?_) (fun g d h0 h => ?_) fun g d h0 h => ?_
  · dsimp only [signedDwordForm] at h
    unfold divideSignedDword
    rcases h with h | h
    · exact ⟨_, if_pos h⟩
    · dsimp only
      split
      · exact ⟨_, rfl⟩
      · split
        · exact ⟨_, rfl⟩
        · exact ⟨_, if_pos (by omega)⟩
  · dsimp only [signedDwordForm] at h h0 ⊢
    have hrefused : ¬(((g.regs .rdx).setWidth 32 ++ (g.regs .rax).setWidth 32).toInt = -2 ^ 63 ∧
        (d.setWidth 32).toInt = -1) := by
      rintro ⟨h1, h2⟩
      rw [h1, h2] at h
      exact absurd h (by decide)
    simp only [divideSignedDword, if_neg h0, if_neg hrefused, writeAccumulators]
    rw [if_neg (by omega)]
  · dsimp only [signedDwordForm] at h h0 ⊢
    have hdividend := toInt_inRange (k := 63)
      ((g.regs .rdx).setWidth 32 ++ (g.regs .rax).setWidth 32)
    have hdivisor := toInt_inRange (k := 31) (d.setWidth 32)
    refine ⟨hdividend, by omega, tdiv_inRange hdividend h0 h, ?_⟩
    have hmod := Int.natAbs_tmod ((g.regs .rdx).setWidth 32 ++ (g.regs .rax).setWidth 32).toInt
      (d.setWidth 32).toInt
    have hlt := Nat.mod_lt
      (((g.regs .rdx).setWidth 32 ++ (g.regs .rax).setWidth 32).toInt).natAbs
      (Int.natAbs_pos.mpr h0)
    omega

end X86

end Rosa
