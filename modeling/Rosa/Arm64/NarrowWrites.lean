import Rosa.IR.Definitions

/-!
# Byte writes to a cleared register

`compile` of `arm64/Backend.cpp` scans a block for guest registers that are known to be
zero, and writes the byte of a condition to the whole of such a register. The scan ends the
fact at explicit writes, conditional moves, pushes, string operations and divisions. The
other helpers that write a guest register (bit scans, byte masks, conversions, exchanges,
`CPUID`, the time stamp counter) do not end it, and the register need not be zero where the
byte is written.
-/

namespace Rosa

namespace Arm64

/-! ## The scan -/

/-- The operations that end every fact of the scan. -/
def endsKnownZero (opcode : Opcode) : Bool :=
  [.push, .repeatMoveByte, .repeatStore, .divideUnsignedByte, .divideUnsignedDword,
    .divideUnsignedQword, .divideSignedDword].contains opcode

/-- The write clears its register. -/
def writesZero (block : Block) (op : Operation) (source : ValueId) : Bool :=
  (op.width == .i32 || op.width == .i64) &&
    (block.definingOperation source).any fun d => d.opcode == .constant && d.immediate == 0

/-- The write stores the byte of a condition. -/
def writesCondition (block : Block) (op : Operation) (source : ValueId) : Bool :=
  op.width == .i8 && (block.definingOperation source).any fun d => d.opcode == .evaluateCondition

/-- One turn of the scan : the registers known to be zero after the operation, and whether
its write is promoted. -/
def scanOperation (block : Block) (known : Register → Bool) (op : Operation) :
    (Register → Bool) × Bool :=
  match op.opcode, op.guestRegister, op.lhs with
  | .writeGuestReg, some r, some source =>
    if writesZero block op source then (Function.update known r true, false)
    else (Function.update known r false, known r && writesCondition block op source)
  | .conditionalMoveGuestReg, some r, _ => (Function.update known r false, false)
  | opcode, _, _ => (if endsKnownZero opcode then fun _ => false else known, false)

/-- The registers known to be zero before an operation. -/
def knownZeroBefore (block : Block) (index : Nat) : Register → Bool :=
  (block.operations.take index).foldl (fun known op => (scanOperation block known op).1)
    fun _ => false

/-- `promotesNarrowGuestWrite`. -/
def promotesNarrowGuestWrite (block : Block) (index : Nat) : Bool :=
  (block.operations[index]?).any fun op =>
    (scanOperation block (knownZeroBefore block index) op).2

/-! ## Helpers that write guest registers -/

/-- The guest registers the helper of an operation may write (`dbt/RuntimeHelpers.cpp` and
`dbt/MemoryArithmetic.cpp`). -/
def helperWrites (op : Operation) : List Register :=
  match op.opcode with
  | .push => [.rsp]
  | .repeatMoveByte => [.rsi, .rdi, .rcx]
  | .repeatStore => [.rdi, .rcx]
  | .divideUnsignedByte => [.rax]
  | .divideUnsignedDword | .divideUnsignedQword | .divideSignedDword => [.rax, .rdx]
  | .readTimestampCounter => [.rax, .rdx]
  | .cpuid => [.rax, .rbx, .rcx, .rdx]
  | .compareExchangeGuestMemory => [.rax]
  | .compareExchangeGuestPair => [.rax, .rdx]
  | .bitScanForward | .bitScanReverse | .convertDoubleToInt | .moveXmmByteMask
  | .exchangeGuestMemory | .lockedExchangeAddGuestMemory => op.guestRegister.toList
  | _ => []

variable {M E : Type}

/-- A runtime whose helpers write the guest registers of their operation only. -/
structure HelperRuntime (M E : Type) extends Runtime M E where
  frame : ∀ op o g memory r, r ∉ helperWrites op →
    (helper op o g memory).2.1.regs r = g.regs r

/-- The operation at an index clears a register. -/
def ClearsAt (block : Block) (r : Register) (index : Nat) : Prop :=
  ∃ op source, block.operations[index]? = some op ∧ op.opcode = .writeGuestReg ∧
    op.guestRegister = some r ∧ op.lhs = some source ∧ writesZero block op source = true

/-- The operation at an index writes a register through a helper. -/
def HelperWritesAt (block : Block) (r : Register) (index : Nat) : Prop :=
  ∃ op, block.operations[index]? = some op ∧ op.opcode.kind = .helper ∧ r ∈ helperWrites op

/-- After every helper that writes the register the block clears it again. -/
def ClearedAfterHelpers (block : Block) (r : Register) (index : Nat) : Prop :=
  ∀ j < index, HelperWritesAt block r j → ∃ k, j < k ∧ k < index ∧ ClearsAt block r k

/-! ## One operation -/

variable {rt : HelperRuntime M E} {block : Block} {known : Register → Bool} {op : Operation}
  {m n : Machine M} {r : Register}

/-- A write of a constant zero. -/
theorem value_of_writesZero (hv : block.Verified) {index : Nat} {source : ValueId}
    (hop : block.operations[index]? = some op) (hwrite : op.opcode = .writeGuestReg)
    (hl : op.lhs = some source) (hz : writesZero block op source = true) {start : Machine M}
    (hrun : runTo rt.toRuntime (block.operations.take index) start = some m) :
    m.values source = 0 := by
  obtain ⟨j, hj, d, hd, hresult⟩ := hv.writeSource_defined hop hwrite hl
  simp only [writesZero, hv.definingOperation_eq hd hresult, Option.any_some, Bool.and_eq_true,
    beq_iff_eq] at hz
  have hle := Nat.le_of_lt (List.getElem?_eq_some_iff.mp hop).1
  refine hv.values_defined (P := fun v => v = 0) hle hrun hd hresult hj fun a b hs => ?_
  cases hs with
  | value hk hr hval =>
    obtain rfl : source = _ := Option.some.inj (hresult ▸ hr)
    simp only [valueOf, hz.2.1, hz.2.2, Option.some.injEq] at hval
    show Function.update a.values source _ source = 0
    rw [← hval, Function.update_self]
    cases d.width <;> rfl
  | load hk | flags hk | guest hk | store hk | helper hk => simp [hz.2.1, Opcode.kind] at hk

/-- Explicit writes and conditional moves change their register only. -/
theorem guestUpdate_regs {o : Operands} {g g' : GuestState} (hg : guestUpdate op o g = some g')
    (hwrite : op.opcode = .writeGuestReg → op.guestRegister ≠ some r)
    (hmove : op.opcode = .conditionalMoveGuestReg → op.guestRegister ≠ some r) :
    g'.regs r = g.regs r := by
  unfold guestUpdate at hg
  split at hg
  · next hop =>
    simp only [Option.bind_eq_bind, Option.bind_eq_some_iff, Option.some.injEq] at hg
    obtain ⟨s, hs, v, -, rfl⟩ := hg
    have : r ≠ s := fun he => hwrite hop (he ▸ hs)
    simp [this]
  · next hop =>
    simp only [Option.bind_eq_bind, Option.bind_eq_some_iff, Option.some.injEq] at hg
    obtain ⟨s, hs, c, -, source, -, v, -, rfl⟩ := hg
    have : r ≠ s := fun he => hmove hop (he ▸ hs)
    simp [this]
  · simp only [Option.bind_eq_bind, Option.bind_eq_some_iff, Option.some.injEq] at hg
    obtain ⟨s, -, v, -, rfl⟩ := hg
    rfl
  · simp only [Option.bind_eq_bind, Option.bind_eq_some_iff, Option.some.injEq] at hg
    obtain ⟨s, -, v, -, rfl⟩ := hg
    rfl
  · simp only [Option.bind_eq_bind, Option.bind_eq_some_iff, Option.some.injEq] at hg
    obtain ⟨s, -, v, -, rfl⟩ := hg
    rfl
  · simp only [Option.bind_eq_bind, Option.bind_eq_some_iff, Option.some.injEq] at hg
    obtain ⟨s, -, v, -, rfl⟩ := hg
    rfl
  · obtain rfl := Option.some.inj hg
    rfl
  · obtain rfl := Option.some.inj hg
    rfl
  · obtain rfl := Option.some.inj hg
    rfl
  · cases hg

/-- A register that no write, no conditional move and no helper touches keeps its value. -/
theorem regs_of_untouched (h : Steps rt.toRuntime op m n)
    (hwrite : op.opcode = .writeGuestReg → op.guestRegister ≠ some r)
    (hmove : op.opcode = .conditionalMoveGuestReg → op.guestRegister ≠ some r)
    (hhelper : op.opcode.kind = .helper → r ∉ helperWrites op) :
    n.guest.regs r = m.guest.regs r := by
  cases h with
  | helper hk hh =>
    have := rt.frame op.payload (operands m.values op) m.guest m.memory r (hhelper hk)
    rwa [hh] at this
  | guest hk hg => exact guestUpdate_regs hg hwrite hmove
  | _ => rfl

/-- What is known after an operation : the register was just cleared, or it was known
before and neither written nor moved to. -/
theorem known_cases (h : (scanOperation block known op).1 r = true) :
    (∃ source, op.opcode = .writeGuestReg ∧ op.guestRegister = some r ∧ op.lhs = some source ∧
      writesZero block op source = true) ∨
    (known r = true ∧
      (op.opcode = .writeGuestReg → op.guestRegister = some r → op.lhs = none) ∧
      (op.opcode = .conditionalMoveGuestReg → op.guestRegister ≠ some r)) := by
  unfold scanOperation at h
  split at h
  · next s source hop hr hl =>
    split at h
    · next hz =>
      by_cases hs : r = s
      · exact .inl ⟨source, hop, hs ▸ hr, hl, hz⟩
      · dsimp only at h
        rw [Function.update_of_ne hs] at h
        exact .inr ⟨h, fun _ he => absurd (Option.some.inj (hr.symm.trans he)).symm hs,
          fun he => by simp [hop] at he⟩
    · by_cases hs : r = s
      · simp [hs] at h
      · dsimp only at h
        rw [Function.update_of_ne hs] at h
        exact .inr ⟨h, fun _ he => absurd (Option.some.inj (hr.symm.trans he)).symm hs,
          fun he => by simp [hop] at he⟩
  · next s hop hr =>
    by_cases hs : r = s
    · simp [hs] at h
    · dsimp only at h
      rw [Function.update_of_ne hs] at h
      exact .inr ⟨h, fun he => by simp [hop] at he,
        fun _ he => hs (Option.some.inj (hr.symm.trans he)).symm⟩
  · next hmove hwrite =>
    split at h
    · cases h
    · refine .inr ⟨h, fun hop hr => ?_, fun hop hr => hmove r hop hr⟩
      cases hl : op.lhs with
      | none => rfl
      | some source => exact absurd hl (hwrite r source hop hr)

/-! ## Every run -/

/-- A register that is known to be zero is zero, or a helper has written it since. -/
def ZeroOrWritten (block : Block) (r : Register) (index : Nat) (m : Machine M) : Prop :=
  knownZeroBefore block index r = true → m.guest.regs r = 0 ∨
    ∃ j < index, HelperWritesAt block r j ∧ ∀ k, j < k → k < index → ¬ClearsAt block r k

theorem knownZeroBefore_succ {index : Nat} (hop : block.operations[index]? = some op) :
    knownZeroBefore block (index + 1) = (scanOperation block (knownZeroBefore block index) op).1 := by
  simp [knownZeroBefore, List.take_add_one, hop]

theorem zeroOrWritten (hv : block.Verified) {start : Machine M} {index : Nat}
    (hle : index ≤ block.operations.length)
    (hrun : runTo rt.toRuntime (block.operations.take index) start = some m) :
    ZeroOrWritten block r index m := by
  refine runTo_induction (P := ZeroOrWritten block r) (by simp [ZeroOrWritten, knownZeroBefore]) ?_
    hle hrun
  intro i op a b hop hrun hs ih hknown
  rw [knownZeroBefore_succ hop] at hknown
  rcases known_cases hknown with ⟨source, hw, hr, hl, hz⟩ | ⟨hbefore, hwrite, hmove⟩
  · have hzero := value_of_writesZero hv hop hw hl hz hrun
    refine .inl ?_
    rw [(hs.of_writeGuestReg hw hr hl).1, Function.update_self, hzero]
    simp only [writesZero, Bool.and_eq_true, Bool.or_eq_true, beq_iff_eq] at hz
    rcases hz.1 with hwidth | hwidth <;> rw [hwidth] <;> rfl
  · have hclears : ¬ClearsAt block r i := by
      rintro ⟨op', source, hop', hw, hr, hl, -⟩
      obtain rfl : op = op' := by simpa [hop] using hop'
      simp [hwrite hw hr] at hl
    by_cases hhelper : op.opcode.kind = .helper ∧ r ∈ helperWrites op
    · exact .inr ⟨i, Nat.lt_succ_self i, ⟨op, hop, hhelper⟩, by omega⟩
    · have hkeep : b.guest.regs r = a.guest.regs r := by
        refine regs_of_untouched hs (fun hw hr => ?_) hmove fun hk hmem => hhelper ⟨hk, hmem⟩
        obtain ⟨defined, hcheck, -, -⟩ := hv.at_index hop
        simp [checkOperation, hw, hwrite hw hr, checkUse] at hcheck
      rcases ih hbefore with hzero | ⟨j, hj, hwritten, hnone⟩
      · exact .inl (hkeep.trans hzero)
      · refine .inr ⟨j, Nat.lt_succ_of_lt hj, hwritten, fun k hjk hk => ?_⟩
        rcases Nat.lt_succ_iff_lt_or_eq.mp hk with hlt | rfl
        · exact hnone k hjk hlt
        · exact hclears

/-- A promoted write : the byte of a condition, to a register that was known to be zero. -/
theorem promoted_cases {index : Nat} (h : promotesNarrowGuestWrite block index = true) :
    ∃ op r source, block.operations[index]? = some op ∧ op.opcode = .writeGuestReg ∧
      op.guestRegister = some r ∧ op.lhs = some source ∧ op.width = .i8 ∧
      (∃ d, block.definingOperation source = some d ∧ d.opcode = .evaluateCondition) ∧
      knownZeroBefore block index r = true := by
  unfold promotesNarrowGuestWrite at h
  obtain ⟨op, hop, h⟩ := (Option.any_eq_true _ _).mp h
  unfold scanOperation at h
  split at h
  · next r source hw hr hl =>
    split at h
    · cases h
    · simp only [writesCondition, Bool.and_eq_true, beq_iff_eq] at h
      obtain ⟨hknown, hwidth, hcondition⟩ := h
      obtain ⟨d, hd, hcondition⟩ := (Option.any_eq_true _ _).mp hcondition
      exact ⟨op, r, source, hop, hw, hr, hl, hwidth, ⟨d, hd, by simpa using hcondition⟩, hknown⟩
  · cases h
  · cases h

/-- The byte of a condition is zero or one. -/
theorem value_of_condition (hv : block.Verified) {index : Nat} {source : ValueId} {d : Operation}
    (hop : block.operations[index]? = some op) (hwrite : op.opcode = .writeGuestReg)
    (hl : op.lhs = some source) (hd : block.definingOperation source = some d)
    (hcondition : d.opcode = .evaluateCondition) {start : Machine M}
    (hrun : runTo rt.toRuntime (block.operations.take index) start = some m) :
    m.values source = 0 ∨ m.values source = 1 := by
  obtain ⟨j, hj, d', hd', hresult⟩ := hv.writeSource_defined hop hwrite hl
  obtain rfl : d' = d := by simpa [hd] using (hv.definingOperation_eq hd' hresult).symm
  have hle := Nat.le_of_lt (List.getElem?_eq_some_iff.mp hop).1
  refine hv.values_defined (P := fun v => v = 0 ∨ v = 1) hle hrun hd' hresult hj fun a b hs => ?_
  cases hs with
  | value hk hr hval =>
    obtain rfl : source = _ := Option.some.inj (hresult ▸ hr)
    simp only [valueOf, hcondition, Option.map_eq_some_iff] at hval
    obtain ⟨c, -, rfl⟩ := hval
    show Function.update a.values source _ source = 0 ∨ Function.update a.values source _ source = 1
    rw [Function.update_self]
    split
    · exact .inr rfl
    · exact .inl rfl
  | load hk | flags hk | guest hk | store hk | helper hk => simp [hcondition, Opcode.kind] at hk

/-- The register a promoted write goes to is zero, and the write of the whole value is the
write of its byte. -/
def PromotionSound (op : Operation) (m : Machine M) : Prop :=
  ∀ r source, op.guestRegister = some r → op.lhs = some source →
    m.guest.regs r = 0 ∧ op.width.merge (m.guest.regs r) (m.values source) = m.values source

/-- In every run of a verified block that reaches a promoted write, if the block clears the
register again after every helper that writes it, the promotion is sound. -/
theorem promotesNarrowGuestWrite_sound (rt : HelperRuntime M E) (block : Block)
    (hv : block.Verified) (index : Nat) (op : Operation) (r : Register)
    (hop : block.operations[index]? = some op) (hr : op.guestRegister = some r)
    (hpromotes : promotesNarrowGuestWrite block index = true)
    (hhelpers : ClearedAfterHelpers block r index) (start m : Machine M)
    (hrun : runTo rt.toRuntime (block.operations.take index) start = some m) :
    PromotionSound op m := by
  intro s source hs hl
  obtain ⟨op', r', source', hop', hw, hr', hl', hwidth, ⟨d, hd, hcondition⟩, hknown⟩ :=
    promoted_cases hpromotes
  obtain rfl : op = op' := by simpa [hop] using hop'
  obtain rfl : r = r' := by simpa [hr] using hr'
  obtain rfl : r = s := by simpa [hr] using hs
  obtain rfl : source = source' := by simpa [hl] using hl'
  have hle := Nat.le_of_lt (List.getElem?_eq_some_iff.mp hop).1
  have hzero : m.guest.regs r = 0 := by
    rcases zeroOrWritten hv hle hrun hknown with hzero | ⟨j, hj, hwritten, hnone⟩
    · exact hzero
    · obtain ⟨k, hjk, hk, hclears⟩ := hhelpers j hj hwritten
      exact absurd hclears (hnone k hjk hk)
  refine ⟨hzero, ?_⟩
  rw [hzero, hwidth]
  rcases value_of_condition hv hop hw hl hd hcondition hrun with h | h <;> rw [h] <;> rfl

/-- `moveXmmByteMask32`. -/
def moveXmmByteMask32 (g : GuestState) (destination : Register) (source : XmmRegister) :
    GuestState :=
  g.setReg destination <| (List.range 16).foldl (fun mask i =>
    let lane := if i < 8 then (g.xmm source).1 else (g.xmm source).2
    mask ||| ((lane >>> (i % 8 * 8 + 7)) &&& 1) <<< i) 0

/-- The helper of the byte mask, without memory. -/
def byteMaskRuntime : HelperRuntime Unit Unit where
  load _ _ _ := (.error (), ())
  store _ _ _ _ := (.error (), ())
  helper op _ g _ :=
    match op.opcode, op.guestRegister, op.guestXmmRegister with
    | .moveXmmByteMask, some r, some x => (.ok (), moveXmmByteMask32 g r x, ())
    | _, _, _ => (.error (), g, ())
  frame op o g memory r hr := by
    split
    · next s x hop hs hx =>
      have : r ≠ s := by simpa [helperWrites, hop, hs] using hr
      simp [moveXmmByteMask32, this]
    · rfl

/-- `mov eax, 0`, the operations of `middle`, `sete al` and `ret`. -/
def conditionBlock (middle : List Operation) : Block where
  start := 0x1000
  operations :=
    [{ opcode := .constant, width := .i32, result := some 0 },
      { opcode := .writeGuestReg, width := .i32, lhs := some 0, guestRegister := some .rax }] ++
    middle ++
    [{ opcode := .evaluateCondition, width := .i8, result := some 1, condition := some .equal },
      { opcode := .writeGuestReg, width := .i8, lhs := some 1, guestRegister := some .rax },
      { opcode := .exitBlock }]
  valueCount := 2

/-- Every bit of the first vector register is set. -/
def onesState : GuestState where
  regs _ := 0
  rip := 0x1000
  rflags := 2
  xmm _ := (BitVec.allOnes 64, BitVec.allOnes 64)
  ymmUpper _ := (0, 0)
  gsBase := 0

theorem promotionSound_setcc : ∃ m, runTo byteMaskRuntime.toRuntime
    ((conditionBlock []).operations.take 3) ⟨fun _ => 0, onesState, ()⟩ = some m ∧
      PromotionSound { opcode := .writeGuestReg, width := .i8, lhs := some 1, guestRegister := some .rax }
        m := by
  refine ⟨_, rfl, promotesNarrowGuestWrite_sound byteMaskRuntime (conditionBlock []) (by decide) 3 _
    .rax rfl rfl (by decide) ?_ _ _ rfl⟩
  rintro (_ | _ | _ | j) hj ⟨op, hop, hk, -⟩
  · cases hop
    simp [Opcode.kind] at hk
  · cases hop
    simp [Opcode.kind] at hk
  · cases hop
    simp [Opcode.kind] at hk
  · omega

/-- The block with `pmovmskb eax, xmm0` in the middle. -/
def byteMaskBlock : Block :=
  conditionBlock
    [{ opcode := .moveXmmByteMask, guestRegister := some .rax, guestXmmRegister := some 0 }]

/-- With the byte mask between the two the register holds `0xFFFF` at the byte write,
which the promoted write clears. -/
theorem not_promotionSound_byteMask :
    byteMaskBlock.Verified ∧ promotesNarrowGuestWrite byteMaskBlock 4 = true ∧ ∃ op m,
      byteMaskBlock.operations[4]? = some op ∧
        runTo byteMaskRuntime.toRuntime (byteMaskBlock.operations.take 4)
          ⟨fun _ => 0, onesState, ()⟩ = some m ∧
        m.guest.regs .rax = 0xFFFF ∧ ¬PromotionSound op m := by
  refine ⟨by decide, by decide, _, _, rfl, rfl, by decide, fun h => ?_⟩
  exact absurd (h .rax 1 rfl rfl).1 (by decide)

end Arm64

end Rosa
