import Rosa.IR.Semantics

/-!
# The optimizer

`ir/Optimization.cpp`. One pass over a block forwards guest registers : a register read
whose value is already in an IR value is dropped, and its result is replaced by that
value from there on. In a loop that reads bytes through a direct view the pass also
drops an addition that was already emitted.

The pass knows four facts about each guest register (the value that was read from or
written to it, whether that value is the whole register, whether it is the zero extended
low half, whether the register is zero) and three about each value (zero extended, zero,
the result of a condition). `Tracks` says what the facts mean for the two runs; one
lemma shows that an operation keeps it, and `run_forwardFrom` follows by induction on
the operations.
-/

namespace Rosa

/-! ## The pass -/

/-- `isSafelyRepeatableOperation`. -/
def isSafelyRepeatableOperation (op : Operation) : Bool :=
  match op.opcode with
  | .constant | .readGuestReg | .writeGuestReg | .add | .sub | .shiftLeft | .shiftRightLogical
  | .shiftRightArithmetic | .multiplyLow | .multiplyHighUnsigned | .multiplyHighSigned
  | .shiftRightDouble | .and | .or | .xor | .signExtend32 | .byteSwap | .evaluateCondition
  | .conditionalMoveGuestReg | .loadGuest | .updateAddFlags | .updateAdcFlags | .updateSbbFlags
  | .updateIncFlags | .updateDecFlags | .updateSubFlags | .updateLogicFlags
  | .updateShiftLeftFlags | .updateShiftRightFlags | .updateShiftRightArithmeticFlags
  | .updateRotateLeftFlags | .updateRotateRightFlags | .updateMultiplyFlags
  | .updateSignedMultiplyFlags | .updateShiftRightDoubleFlags | .updateBitTestFlags
  | .storeGuest | .exitBlock => true
  | _ => false

/-- `hasInternalSelfEdge` : every operation may be repeated and an exit leads back to
the start of the block. -/
def hasInternalSelfEdge (block : Block) : Bool :=
  block.operations.all isSafelyRepeatableOperation &&
    block.operations.any fun op =>
      op.opcode == .exitBlock &&
        (op.target == some block.start || op.fallthrough == some block.start)

/-- What the pass knows about a guest register. -/
structure RegisterFact where
  value : Option ValueId := none
  full : Bool := false
  zeroExtended : Bool := false
  zero : Bool := false

/-- The state of the pass : the facts, the replacements and the operations emitted so far. -/
structure Tracker where
  registers : Register → RegisterFact := fun _ => {}
  replacements : ValueId → ValueId := id
  zeroExtendedValues : ValueId → Bool := fun _ => false
  zeroValues : ValueId → Bool := fun _ => false
  conditionValues : ValueId → Bool := fun _ => false
  operations : List Operation := []

/-- What the pass is told about the block. -/
structure ForwardMode where
  acrossLoads : Bool
  acrossStores : Bool
  valueCount : Nat

/-- `resolve` : follow the replacements to their end. A chain has at most one link for
each value. -/
def resolveFrom (replacements : ValueId → ValueId) : Nat → ValueId → ValueId
  | 0, v => v
  | fuel + 1, v =>
    if replacements v = v then v else resolveFrom replacements fuel (replacements v)

/-- `resolve` in the state of the pass. -/
def Tracker.resolve (mode : ForwardMode) (t : Tracker) (v : ValueId) : ValueId :=
  resolveFrom t.replacements (mode.valueCount + 1) v

/-- The operation with its operands resolved. -/
def Tracker.canonicalize (mode : ForwardMode) (t : Tracker) (op : Operation) : Operation :=
  op.rename (t.resolve mode)

/-- `isZeroExtended`. -/
def Tracker.isZeroExtended (mode : ForwardMode) (t : Tracker) (v : ValueId) : Bool :=
  t.zeroExtendedValues (t.resolve mode v)

/-- `isZero`. -/
def Tracker.isZero (mode : ForwardMode) (t : Tracker) (v : ValueId) : Bool :=
  t.zeroValues (t.resolve mode v)

/-- `preservesHostValues` : the operation keeps the host registers of earlier values. -/
def preservesHostValues (mode : ForwardMode) (op : Operation) : Bool :=
  match op.opcode with
  | .constant | .readGuestReg | .writeGuestReg | .add | .sub | .shiftLeft | .shiftRightLogical
  | .shiftRightArithmetic | .multiplyLow | .multiplyHighUnsigned | .multiplyHighSigned
  | .shiftRightDouble | .and | .or | .xor | .signExtend32 | .byteSwap | .evaluateCondition
  | .updateAddFlags | .updateLogicFlags => true
  | .updateSubFlags => op.width == .i8 || op.width == .i64
  | .loadGuest => mode.acrossLoads && op.width == .i8
  | .storeGuest => mode.acrossStores && op.width == .i8
  | _ => false

/-- An addition already emitted with the same operands. -/
def Tracker.equivalentAdd (t : Tracker) (op : Operation) : Option ValueId :=
  (t.operations.find? fun candidate =>
    candidate.result.isSome && candidate.opcode == op.opcode && candidate.width == op.width &&
      candidate.lhs == op.lhs && candidate.rhs == op.rhs && candidate.third == op.third &&
      candidate.immediate == op.immediate).bind Operation.result

/-- The value an already canonical operation's result is replaced by, if it is dropped. -/
def Tracker.replacementFor (mode : ForwardMode) (t : Tracker) (op : Operation) :
    Option ValueId :=
  let reused :=
    if mode.acrossLoads && op.result.isSome && op.opcode == .add then
      (t.equivalentAdd op).map (t.resolve mode)
    else none
  match reused with
  | some source => some source
  | none =>
    match op.opcode, op.guestRegister with
    | .readGuestReg, some r =>
      let fact := t.registers r
      if op.result.isSome &&
          ((op.width == .i64 && fact.full) || (op.width == .i32 && fact.zeroExtended)) then
        fact.value.map (t.resolve mode)
      else none
    | _, _ => none

/-- The facts recorded with a dropped operation. A dropped read takes them from the
register, a dropped addition from the value. -/
def Tracker.drop (t : Tracker) (op : Operation) (result source : ValueId) : Tracker :=
  match op.opcode, op.guestRegister with
  | .readGuestReg, some r =>
    { t with
      replacements := Function.update t.replacements result source
      zeroExtendedValues :=
        Function.update t.zeroExtendedValues result (t.registers r).zeroExtended
      zeroValues := Function.update t.zeroValues result (t.registers r).zero }
  | _, _ =>
    { t with
      replacements := Function.update t.replacements result source
      zeroExtendedValues :=
        Function.update t.zeroExtendedValues result (t.zeroExtendedValues source)
      zeroValues := Function.update t.zeroValues result (t.zeroValues source)
      conditionValues := Function.update t.conditionValues result (t.conditionValues source) }

/-- The fact about a register after a write of `lhs` to it. -/
def Tracker.writtenFact (mode : ForwardMode) (t : Tracker) (old : RegisterFact) (w : Width)
    (lhs : Option ValueId) : RegisterFact :=
  match w, lhs with
  | .i64, some v =>
    { value := some v, full := true
      zeroExtended := t.isZeroExtended mode v, zero := t.isZero mode v }
  | .i32, some v =>
    { value := some v, full := t.isZeroExtended mode v
      zeroExtended := t.isZeroExtended mode v, zero := t.isZero mode v }
  | .i8, some v =>
    if old.zero && t.conditionValues (t.resolve mode v) then
      { value := some v, full := true
        zeroExtended := t.isZeroExtended mode v, zero := t.isZero mode v }
    else {}
  | _, _ => {}

/-- The facts about the registers after an emitted operation. -/
def Tracker.updateRegisters (mode : ForwardMode) (t : Tracker) (op : Operation) :
    Register → RegisterFact :=
  match op.opcode, op.guestRegister with
  | .readGuestReg, some r =>
    if op.result.isSome && (op.width == .i32 || op.width == .i64) then
      Function.update t.registers r
        { value := op.result, full := op.width == .i64, zeroExtended := op.width == .i32 }
    else t.registers
  | .writeGuestReg, some r =>
    Function.update t.registers r (t.writtenFact mode (t.registers r) op.width op.lhs)
  | .conditionalMoveGuestReg, some r => Function.update t.registers r {}
  | _, _ => if preservesHostValues mode op then t.registers else fun _ => {}

/-- The opcodes whose 32-bit results are zero extended. -/
def zeroExtendsDword (opcode : Opcode) : Bool :=
  match opcode with
  | .constant | .readGuestReg | .add | .sub | .and | .or | .xor | .loadGuest => true
  | _ => false

/-- The facts after an emitted operation. -/
def Tracker.emit (mode : ForwardMode) (t : Tracker) (op : Operation) : Tracker :=
  let t' := { t with
    registers := t.updateRegisters mode op, operations := t.operations ++ [op] }
  match op.result with
  | none => t'
  | some r =>
    let zero := op.opcode == .constant && op.immediate == 0
    let condition := op.opcode == .evaluateCondition
    { t' with
      zeroValues := Function.update t.zeroValues r zero
      conditionValues := Function.update t.conditionValues r condition
      zeroExtendedValues :=
        Function.update t.zeroExtendedValues r
          (zero || condition || (op.width == .i32 && zeroExtendsDword op.opcode)) }

/-- The loop of `forwardFullWidthGuestReads`. -/
def forwardFrom (mode : ForwardMode) : Tracker → List Operation → List Operation
  | _, [] => []
  | t, op :: ops =>
    let op' := t.canonicalize mode op
    match op'.result, t.replacementFor mode op' with
    | some result, some source => forwardFrom mode (t.drop op' result source) ops
    | _, _ => op' :: forwardFrom mode (t.emit mode op') ops

/-- What `forwardFullWidthGuestReads` derives from its flag and the block. -/
def ForwardMode.of (block : Block) (directMemoryLoop : Bool) : ForwardMode :=
  let byte (opcode : Opcode) :=
    block.operations.any fun op => op.opcode == opcode && op.width == .i8
  let acrossLoads := directMemoryLoop && byte .loadGuest
  { acrossLoads := acrossLoads
    acrossStores := directMemoryLoop && !acrossLoads && byte .storeGuest
    valueCount := block.valueCount }

/-- `forwardFullWidthGuestReads`. -/
def forwardFullWidthGuestReads (block : Block) (directMemoryLoop : Bool) : Block :=
  { block with
    operations := forwardFrom (.of block directMemoryLoop) {} block.operations }

/-- `optimizeBlock`, without the second verification of debug builds. -/
def optimizeBlock (block : Block) : Block :=
  forwardFullWidthGuestReads block (hasInternalSelfEdge block)

/-! ## What the facts mean -/

variable {M E : Type}

/-- The facts about a register hold in `guest`, with the values of `values`. -/
structure RegisterFact.Holds (fact : RegisterFact) (defined : ValueId → Bool)
    (values : ValueId → BitVec 64) (content : BitVec 64) : Prop where
  defined : ∀ v, fact.value = some v → defined v = true
  full : ∀ v, fact.value = some v → fact.full = true → content = values v
  zeroExtended : ∀ v, fact.value = some v → fact.zeroExtended = true →
    Width.truncate .i32 content = values v
  zero : fact.zero = true → content = 0

/-- The facts about the value `v` hold in `values`. -/
structure Tracker.ValueHolds (t : Tracker) (values : ValueId → BitVec 64) (v : ValueId) :
    Prop where
  zeroExtended : t.zeroExtendedValues v = true → Width.truncate .i32 (values v) = values v
  zero : t.zeroValues v = true → values v = 0
  condition : t.conditionValues v = true → values v = 0 ∨ values v = 1

/-- An emitted addition still holds the sum of its operands. -/
def SumHolds (defined : ValueId → Bool) (t : Tracker) (values : ValueId → BitVec 64)
    (op : Operation) : Prop :=
  op.opcode = .add → ∀ r, op.result = some r →
    ∃ a b, op.lhs = some a ∧ op.rhs = some b ∧ defined a = true ∧ defined b = true ∧
      defined r = true ∧ t.replacements r = r ∧
      values r = op.width.hostResult (values a + values b)

/-- The state `m'` of the forwarded block against the state `m` of the block, after the
operations that define `defined`. -/
structure Tracks (defined : ValueId → Bool) (t : Tracker) (m m' : Machine M) : Prop where
  guest : m'.guest = m.guest
  memory : m'.memory = m.memory
  values : ∀ v, m'.values (t.replacements v) = m.values v
  idempotent : ∀ v, t.replacements (t.replacements v) = t.replacements v
  fresh : ∀ v, defined v = false → t.replacements v = v
  closed : ∀ v, defined v = true → defined (t.replacements v) = true
  register : ∀ r, (t.registers r).Holds defined m.values (m.guest.regs r)
  value : ∀ v, t.replacements v = v → t.ValueHolds m.values v
  sum : ∀ op ∈ t.operations, SumHolds defined t m'.values op

theorem Tracks.initial (m : Machine M) : Tracks (fun _ => false) {} m m where
  guest := rfl
  memory := rfl
  values _ := rfl
  idempotent _ := rfl
  fresh _ _ := rfl
  closed _ h := h
  register _ := ⟨by simp, by simp, by simp, by simp⟩
  value _ _ := ⟨by simp, by simp, by simp⟩
  sum := by simp

theorem RegisterFact.holds_empty (defined : ValueId → Bool) (values : ValueId → BitVec 64)
    (content : BitVec 64) : RegisterFact.Holds {} defined values content :=
  ⟨by simp, by simp, by simp, by simp⟩

/-- Facts survive a change of the values that are not defined yet. -/
theorem RegisterFact.Holds.mono {fact : RegisterFact} {defined defined' : ValueId → Bool}
    {values values' : ValueId → BitVec 64} {content : BitVec 64}
    (h : fact.Holds defined values content)
    (hd : ∀ v, defined v = true → defined' v = true)
    (hv : ∀ v, defined v = true → values' v = values v) :
    fact.Holds defined' values' content where
  defined v hf := hd v (h.defined v hf)
  full v hf hfull := by rw [hv v (h.defined v hf)]; exact h.full v hf hfull
  zeroExtended v hf hz := by rw [hv v (h.defined v hf)]; exact h.zeroExtended v hf hz
  zero := h.zero

section

variable {mode : ForwardMode} {defined : ValueId → Bool} {t : Tracker} {m m' : Machine M}

/-- Where replacing twice is replacing once, a chain has one link. -/
theorem Tracker.resolve_eq
    (hidempotent : ∀ v, t.replacements (t.replacements v) = t.replacements v) (v : ValueId) :
    t.resolve mode v = t.replacements v := by
  unfold Tracker.resolve
  rw [resolveFrom]
  split
  · next hv => exact hv.symm
  · cases mode.valueCount with
    | zero => rfl
    | succ n => rw [resolveFrom, if_pos (hidempotent v)]

theorem Tracks.resolve_eq (h : Tracks defined t m m') (v : ValueId) :
    t.resolve mode v = t.replacements v :=
  Tracker.resolve_eq h.idempotent v

theorem Tracks.values_resolve (h : Tracks defined t m m') (v : ValueId) :
    m'.values (t.resolve mode v) = m.values v := by
  rw [h.resolve_eq, h.values]

/-- At the end of a chain the two runs hold the same value. -/
theorem Tracks.values_final (h : Tracks defined t m m') (v : ValueId) :
    m.values (t.replacements v) = m.values v := by
  rw [← h.values (t.replacements v), h.idempotent, h.values]

theorem Tracks.valueHolds_resolve (h : Tracks defined t m m') (mode : ForwardMode)
    (v : ValueId) :
    t.ValueHolds m.values (t.resolve mode v) := by
  rw [h.resolve_eq]
  exact h.value _ (h.idempotent v)

/-- The facts about a written operand, read off its canonical name. -/
theorem Tracks.isZeroExtended (h : Tracks defined t m m') {v : ValueId}
    (hz : t.isZeroExtended mode v = true) : Width.truncate .i32 (m.values v) = m.values v := by
  have := (h.valueHolds_resolve mode v).zeroExtended hz
  rwa [h.resolve_eq, h.values_final] at this

theorem Tracks.isZero (h : Tracks defined t m m') {v : ValueId}
    (hz : t.isZero mode v = true) : m.values v = 0 := by
  have := (h.valueHolds_resolve mode v).zero hz
  rwa [h.resolve_eq, h.values_final] at this

theorem Tracks.isCondition (h : Tracks defined t m m') {v : ValueId}
    (hz : t.conditionValues (t.resolve mode v) = true) :
    m.values v = 0 ∨ m.values v = 1 := by
  have := (h.valueHolds_resolve mode v).condition hz
  rwa [h.resolve_eq, h.values_final] at this

theorem Tracks.operands_canonicalize (h : Tracks defined t m m') (op : Operation) :
    operands m'.values (t.canonicalize mode op) = operands m.values op := by
  have hv : m'.values ∘ t.resolve mode = m.values := funext fun v => h.values_resolve v
  simp [operands, Tracker.canonicalize, Operation.rename, Option.map_map, hv]

end

/-! ## An emitted operation -/

theorem preservesHostValues_kind {mode : ForwardMode} {op : Operation}
    (h : preservesHostValues mode op = true) (hw : op.opcode ≠ .writeGuestReg) :
    op.opcode.kind ≠ .guest ∧ op.opcode.kind ≠ .helper := by
  unfold preservesHostValues at h
  split at h <;> simp_all [Opcode.kind]

theorem zeroExtendsDword_kind {opcode : Opcode} (h : zeroExtendsDword opcode = true) :
    opcode.kind = .value ∨ opcode.kind = .load := by
  unfold zeroExtendsDword at h
  split at h <;> simp_all [Opcode.kind]

/-- The value of a 32-bit operation of these opcodes is a 32-bit host result. -/
theorem valueOf_zeroExtendsDword {op : Operation} {o : Operands} {g : GuestState} {v : BitVec 64}
    (hv : valueOf op o g = some v) (hw : op.width = .i32) (ho : zeroExtendsDword op.opcode = true) :
    Width.truncate .i32 v = v := by
  have key (x : BitVec 64) (h : Width.hostResult .i32 x = v) : Width.truncate .i32 v = v := by
    rw [← h, Width.hostResult, Width.truncate_truncate]
  unfold zeroExtendsDword at ho
  split at ho
  case h_9 => cases ho
  all_goals
    simp only [valueOf, ‹op.opcode = _›, hw, Option.some.injEq, Option.map_eq_some_iff,
      Option.bind_eq_bind, Option.bind_eq_some_iff, reduceCtorEq] at hv
  all_goals grind

/-- The facts recorded for a result are true of the value computed. -/
theorem Steps.resultFacts {rt : Runtime M E} {op : Operation} {m n : Machine M}
    (h : Steps rt op m n) {r : ValueId} (hr : op.result = some r) :
    (op.opcode = .constant → op.immediate = 0 → n.values r = 0) ∧
    (op.opcode = .evaluateCondition → n.values r = 0 ∨ n.values r = 1) ∧
    (op.width = .i32 → zeroExtendsDword op.opcode = true →
      Width.truncate .i32 (n.values r) = n.values r) := by
  cases h with
  | value hk hr' hv =>
    obtain rfl : r = _ := Option.some.inj (hr ▸ hr')
    simp only [Function.update_self]
    refine ⟨fun ho hi => ?_, fun ho => ?_, valueOf_zeroExtendsDword hv⟩
    · simp only [valueOf, ho, hi, Option.some.injEq] at hv
      rw [← hv]
      cases op.width <;> simp [Width.hostResult]
    · simp only [valueOf, ho, Option.map_eq_some_iff] at hv
      obtain ⟨c, -, rfl⟩ := hv
      split <;> simp
  | load hk hr' ha hl =>
    obtain rfl : r = _ := Option.some.inj (hr ▸ hr')
    simp only [Function.update_self]
    refine ⟨fun ho => ?_, fun ho => ?_, fun hw _ => ?_⟩
    · simp [ho, Opcode.kind] at hk
    · simp [ho, Opcode.kind] at hk
    · rw [← hw, Width.truncate_setWidth]
  | flags hk | guest hk | store hk | helper hk => 
    refine ⟨fun ho => ?_, fun ho => ?_, fun hw ho => ?_⟩
    · simp [ho, Opcode.kind] at hk
    · simp [ho, Opcode.kind] at hk
    · rcases zeroExtendsDword_kind ho with h | h <;> simp [h] at hk

section

variable {mode : ForwardMode} {n : Nat} {defined : ValueId → Bool} {t : Tracker}
  {m m' k k' : Machine M} {rt : Runtime M E} {op : Operation}

/-- A step changes no value that was defined before it. -/
theorem SameEffect.values_of_defined (h : SameEffect op.result m m' (.next k : Effect M E) (.next k'))
    (hfresh : ∀ r, op.result = some r → r < n ∧ defined r = false) {v : ValueId}
    (hv : defined v = true) : k.values v = m.values v ∧ k'.values v = m'.values v := by
  obtain ⟨-, -, ⟨h1, h2⟩ | ⟨r, x, hr, h1, h2⟩⟩ := h
  · rw [h1, h2]
    exact ⟨rfl, rfl⟩
  · have hne : v ≠ r := by
      rintro rfl
      rw [(hfresh v hr).2] at hv
      cases hv
    rw [h1, h2, Function.update_of_ne hne, Function.update_of_ne hne]
    exact ⟨rfl, rfl⟩

/-- The replacement of a value is never a fresh result, unless it is the result. -/
theorem Tracks.replacements_ne (h : Tracks defined t m m') {r v : ValueId}
    (hr : defined r = false) (hv : v ≠ r) : t.replacements v ≠ r := by
  intro he
  cases hd : defined v with
  | false => exact hv (h.fresh v hd ▸ he)
  | true => exact absurd (he ▸ h.closed v hd) (by simp [hr])

theorem merge_byte_condition {v : BitVec 64} (hv : v = 0 ∨ v = 1) :
    Width.merge .i8 0 v = v := by
  rcases hv with rfl | rfl <;> rfl

/-- The fact recorded for a write holds after it. -/
theorem Tracks.writtenFact (h : Tracks defined t m m') (r : Register) (w : Width) {v : ValueId}
    (hv : defined v = true) :
    (t.writtenFact mode (t.registers r) w (some v)).Holds defined m.values
      (w.merge (m.guest.regs r) (m.values v)) := by
  cases w with
  | i64 =>
    refine ⟨by rintro _ ⟨⟩; exact hv, by rintro _ ⟨⟩ -; rfl, ?_, h.isZero⟩
    rintro _ ⟨⟩ hz
    exact h.isZeroExtended hz
  | i32 =>
    refine ⟨by rintro _ ⟨⟩; exact hv, ?_, ?_, fun hz => ?_⟩
    · rintro _ ⟨⟩ hz
      exact h.isZeroExtended hz
    · rintro _ ⟨⟩ hz
      rw [Width.merge, Width.truncate_truncate]
      exact h.isZeroExtended hz
    · rw [h.isZero hz]
      exact Width.truncate_zero .i32
  | i16 => exact RegisterFact.holds_empty _ _ _
  | i8 =>
    simp only [Tracker.writtenFact]
    split
    · next hz =>
      rw [Bool.and_eq_true] at hz
      -- the register is known to be zero, so merging a condition's byte gives the byte
      rw [(h.register r).zero hz.1, merge_byte_condition (h.isCondition hz.2)]
      refine ⟨by rintro _ ⟨⟩; exact hv, by rintro _ ⟨⟩ -; rfl, ?_, h.isZero⟩
      rintro _ ⟨⟩ hz
      exact h.isZeroExtended hz
    · exact RegisterFact.holds_empty _ _ _

/-- The facts about the registers after an emitted operation hold. -/
theorem Tracks.updateRegisters (h : Tracks defined t m m') (hs : Steps rt op m k)
    (hcheck : checkOperation defined op = [])
    (hfresh : ∀ r, op.result = some r → r < n ∧ defined r = false)
    (hkeep : ∀ v, defined v = true → k.values v = m.values v) (s : Register) :
    (t.updateRegisters mode (t.canonicalize mode op) s).Holds (define n defined op.result)
      k.values (k.guest.regs s) := by
  have hdef (v : ValueId) :
      define n defined op.result v = true ↔ defined v = true ∨ op.result = some v :=
    define_iff (fun r hr => (hfresh r hr).1) v
  have hold {fact : RegisterFact} {content : BitVec 64} (hf : fact.Holds defined m.values content) :
      fact.Holds (define n defined op.result) k.values content :=
    hf.mono (fun v hv => (hdef v).mpr (.inl hv)) hkeep
  fun_cases Tracker.updateRegisters mode t (t.canonicalize mode op) with
  | case1 r hreg hop hw =>
    obtain ⟨v, hv⟩ := Option.isSome_iff_exists.mp (Bool.and_eq_true_iff.mp hw).1
    obtain ⟨hread, hguest⟩ := hs.of_readGuestReg hop hreg hv
    rw [hguest]
    rcases eq_or_ne s r with rfl | hne
    · rw [Function.update_self]
      have hv' : (t.canonicalize mode op).result = some v := hv
      refine ⟨fun u hu => (hdef u).mpr (.inr hu), fun u hu hf => ?_, fun u hu hz => ?_, by simp⟩
      · obtain rfl : v = u := Option.some.inj (hv ▸ hu)
        rw [hread, show op.width = .i64 from eq_of_beq hf]
        rfl
      · obtain rfl : v = u := Option.some.inj (hv ▸ hu)
        rw [hread, show op.width = .i32 from eq_of_beq hz]
        rfl
    · rw [Function.update_of_ne hne]
      exact hold (h.register s)
  | case2 r hreg hop hw =>
    rw [hs.regs_eq (by simp [show op.opcode = .readGuestReg from hop, Opcode.kind])
      (by simp [show op.opcode = .readGuestReg from hop, Opcode.kind])]
    exact hold (h.register s)
  | case3 r hreg hop =>
    obtain ⟨v, hlhs, hv⟩ : ∃ v, op.lhs = some v ∧ defined v = true := by
      simp only [checkOperation, show op.opcode = .writeGuestReg from hop,
        List.append_eq_nil_iff] at hcheck
      exact checkUse_eq_nil.mp hcheck.1
    obtain ⟨hregs, -⟩ := hs.of_writeGuestReg hop hreg hlhs
    have hlhs' : (t.canonicalize mode op).lhs = some (t.resolve mode v) := by
      simp [Tracker.canonicalize, Operation.rename, hlhs]
    rw [hregs]
    rcases eq_or_ne s r with rfl | hne
    · rw [Function.update_self, Function.update_self, hlhs', ← h.values_final v, ← h.resolve_eq]
      have hclosed : defined (t.resolve mode v) = true := by
        rw [h.resolve_eq]
        exact h.closed v hv
      exact hold (h.writtenFact s op.width hclosed)
    · rw [Function.update_of_ne hne, Function.update_of_ne hne]
      exact hold (h.register s)
  | case4 r hreg hop =>
    rcases eq_or_ne s r with rfl | hne
    · rw [Function.update_self]
      exact RegisterFact.holds_empty _ _ _
    · rw [Function.update_of_ne hne, hs.of_conditionalMoveGuestReg hop hreg hne]
      exact hold (h.register s)
  | case5 hp hread hwrite hmove =>
    have hop : op.opcode ≠ .writeGuestReg := by
      intro hop
      simp only [checkOperation, hop, List.append_eq_nil_iff, require_eq_nil] at hcheck
      obtain ⟨r, hr⟩ := Option.isSome_iff_exists.mp hcheck.2
      exact hwrite r hop hr
    obtain ⟨hguest, hhelper⟩ := preservesHostValues_kind hp hop
    rw [hs.regs_eq hguest hhelper]
    exact hold (h.register s)
  | case6 => exact RegisterFact.holds_empty _ _ _

@[simp] theorem Tracker.emit_replacements :
    (t.emit mode op).replacements = t.replacements := by
  unfold Tracker.emit
  cases op.result <;> rfl

@[simp] theorem Tracker.emit_registers :
    (t.emit mode op).registers = t.updateRegisters mode op := by
  unfold Tracker.emit
  cases op.result <;> rfl

@[simp] theorem Tracker.emit_operations :
    (t.emit mode op).operations = t.operations ++ [op] := by
  unfold Tracker.emit
  cases op.result <;> rfl

/-- The facts about values other than the result stay. -/
theorem Tracker.emit_valueHolds {values : ValueId → BitVec 64} {v : ValueId}
    (hv : op.result ≠ some v) :
    (t.emit mode op).ValueHolds values v ↔ t.ValueHolds values v := by
  unfold Tracker.emit
  cases hr : op.result with
  | none => exact ⟨fun ⟨h1, h2, h3⟩ => ⟨h1, h2, h3⟩, fun ⟨h1, h2, h3⟩ => ⟨h1, h2, h3⟩⟩
  | some r =>
    have hne : v ≠ r := by
      rintro rfl
      exact hv hr
    constructor
    · rintro ⟨h1, h2, h3⟩
      simp only [Function.update_of_ne hne] at h1 h2 h3
      exact ⟨h1, h2, h3⟩
    · rintro ⟨h1, h2, h3⟩
      constructor <;> simpa only [Function.update_of_ne hne]

/-- The facts recorded for the result hold. -/
theorem Tracker.emit_valueHolds_result {v : ValueId} (hs : Steps rt op m k)
    (hv : op.result = some v) :
    (t.emit mode (t.canonicalize mode op)).ValueHolds k.values v := by
  obtain ⟨hzero, hcondition, hextended⟩ := hs.resultFacts hv
  have hv' : (t.canonicalize mode op).result = some v := hv
  have hop : (t.canonicalize mode op).opcode = op.opcode := rfl
  have himm : (t.canonicalize mode op).immediate = op.immediate := rfl
  have hwidth : (t.canonicalize mode op).width = op.width := rfl
  refine ⟨fun h => ?_, fun h => ?_, fun h => ?_⟩
  all_goals
    simp only [Tracker.emit, hv', hop, himm, hwidth, Function.update_self, Bool.or_eq_true,
      Bool.and_eq_true, beq_iff_eq] at h
  · rcases h with (⟨h1, h2⟩ | h) | ⟨h1, h2⟩
    · rw [hzero h1 h2]
      exact Width.truncate_zero .i32
    · rcases hcondition h with h | h <;> rw [h] <;> rfl
    · exact hextended h1 h2
  · exact hzero h.1 h.2
  · exact hcondition h

/-- The operands of an accepted addition. -/
theorem operands_of_add (hcheck : checkOperation defined op = []) (hop : op.opcode = .add) :
    (∃ x, op.lhs = some x ∧ defined x = true) ∧ ∃ y, op.rhs = some y ∧ defined y = true := by
  simp only [checkOperation, hop, List.append_eq_nil_iff] at hcheck
  exact ⟨checkUse_eq_nil.mp hcheck.1, checkUse_eq_nil.mp hcheck.2⟩

/-- An emitted operation keeps the invariant. -/
theorem Tracks.emit (h : Tracks defined t m m') (hs : Steps rt op m k)
    (hs' : Steps rt (t.canonicalize mode op) m' k')
    (he : SameEffect op.result m m' (.next k : Effect M E) (.next k'))
    (hcheck : checkOperation defined op = [])
    (hfresh : ∀ r, op.result = some r → r < n ∧ defined r = false) :
    Tracks (define n defined op.result) (t.emit mode (t.canonicalize mode op)) k k' := by
  have hdef (v : ValueId) :
      define n defined op.result v = true ↔ defined v = true ∨ op.result = some v :=
    define_iff (fun r hr => (hfresh r hr).1) v
  have hkeep {v : ValueId} (hv : defined v = true) := he.values_of_defined hfresh hv
  have hundef {v : ValueId} (hv : define n defined op.result v = false) : defined v = false := by
    by_contra hd
    simp [(hdef v).mpr (.inl (by simpa using hd))] at hv
  refine ⟨he.1, he.2.1, ?_, ?_, ?_, ?_, ?_, ?_, ?_⟩
  · intro v
    rw [Tracker.emit_replacements]
    obtain ⟨-, -, ⟨h1, h2⟩ | ⟨r, x, hr, h1, h2⟩⟩ := he
    · rw [h1, h2, h.values]
    · rw [h1, h2]
      have hfr := (hfresh r hr).2
      rcases eq_or_ne v r with rfl | hne
      · rw [h.fresh v hfr, Function.update_self, Function.update_self]
      · rw [Function.update_of_ne hne, Function.update_of_ne (h.replacements_ne hfr hne), h.values]
  · simpa using h.idempotent
  · intro v hv
    rw [Tracker.emit_replacements]
    exact h.fresh v (hundef hv)
  · intro v hv
    rw [Tracker.emit_replacements]
    rcases (hdef v).mp hv with hv | hv
    · exact (hdef _).mpr (.inl (h.closed v hv))
    · rw [h.fresh v (hfresh v hv).2]
      exact (hdef v).mpr (.inr hv)
  · intro s
    rw [Tracker.emit_registers]
    exact h.updateRegisters hs hcheck hfresh (fun v hv => (hkeep hv).1) s
  · intro v hv
    rw [Tracker.emit_replacements] at hv
    by_cases hr : op.result = some v
    · exact Tracker.emit_valueHolds_result hs hr
    · rw [Tracker.emit_valueHolds (show (t.canonicalize mode op).result ≠ some v from hr)]
      have : k.values v = m.values v := by
        obtain ⟨-, -, ⟨h1, -⟩ | ⟨r, x, hr', h1, -⟩⟩ := he
        · rw [h1]
        · rw [h1, Function.update_of_ne]
          rintro rfl
          exact hr hr'
      obtain ⟨h1, h2, h3⟩ := h.value v hv
      exact ⟨by rwa [this], by rwa [this], by rwa [this]⟩
  · intro c hc hadd r hr
    rw [Tracker.emit_operations, List.mem_append, List.mem_singleton] at hc
    rw [Tracker.emit_replacements]
    rcases hc with hc | rfl
    · obtain ⟨a, b, ha, hb, hda, hdb, hdr, hrep, hsum⟩ := h.sum c hc hadd r hr
      refine ⟨a, b, ha, hb, (hdef a).mpr (.inl hda), (hdef b).mpr (.inl hdb),
        (hdef r).mpr (.inl hdr), hrep, ?_⟩
      rw [(hkeep hda).2, (hkeep hdb).2, (hkeep hdr).2, hsum]
    · obtain ⟨⟨x, hx, hdx⟩, ⟨y, hy, hdy⟩⟩ := operands_of_add hcheck hadd
      have ha : (t.canonicalize mode op).lhs = some (t.replacements x) := by
        simp [Tracker.canonicalize, Operation.rename, hx, h.resolve_eq]
      have hb : (t.canonicalize mode op).rhs = some (t.replacements y) := by
        simp [Tracker.canonicalize, Operation.rename, hy, h.resolve_eq]
      have hda := h.closed x hdx
      have hdb := h.closed y hdy
      refine ⟨_, _, ha, hb, (hdef _).mpr (.inl hda), (hdef _).mpr (.inl hdb),
        (hdef r).mpr (.inr hr), h.fresh r (hfresh r hr).2, ?_⟩
      rw [(hkeep hda).2, (hkeep hdb).2]
      exact hs'.of_add hadd ha hb hr

/-! ## A dropped operation -/

@[simp] theorem Tracker.drop_replacements {r source : ValueId} :
    (t.drop op r source).replacements = Function.update t.replacements r source := by
  unfold Tracker.drop
  split <;> rfl

@[simp] theorem Tracker.drop_registers {r source : ValueId} :
    (t.drop op r source).registers = t.registers := by
  unfold Tracker.drop
  split <;> rfl

@[simp] theorem Tracker.drop_operations {r source : ValueId} :
    (t.drop op r source).operations = t.operations := by
  unfold Tracker.drop
  split <;> rfl

theorem Tracker.drop_valueHolds {r source v : ValueId} {values : ValueId → BitVec 64}
    (hv : v ≠ r) (h : t.ValueHolds values v) : (t.drop op r source).ValueHolds values v := by
  obtain ⟨h1, h2, h3⟩ := h
  unfold Tracker.drop
  split <;> constructor <;> simpa only [Function.update_of_ne hv]

/-- A dropped operation would have written the value of its replacement. -/
def Replaces (rt : Runtime M E) (defined : ValueId → Bool) (t : Tracker) (m m' : Machine M)
    (op : Operation) (r source : ValueId) : Prop :=
  step rt op m = .next { m with values := Function.update m.values r (m'.values source) } ∧
    defined source = true ∧ t.replacements source = source

theorem Tracks.replaces_add (h : Tracks defined t m m') (hcheck : checkOperation defined op = [])
    (hop : op.opcode = .add) {r c : ValueId} (hr : op.result = some r)
    (hc : t.equivalentAdd (t.canonicalize mode op) = some c) :
    Replaces rt defined t m m' op r (t.resolve mode c) := by
  obtain ⟨candidate, hfind, hcr⟩ := Option.bind_eq_some_iff.mp hc
  have hmem := List.mem_of_find?_eq_some hfind
  have hsame := List.find?_some hfind
  simp only [Bool.and_eq_true, beq_iff_eq] at hsame
  obtain ⟨⟨⟨⟨⟨⟨-, hop'⟩, hw⟩, hl⟩, hrhs⟩, -⟩, -⟩ := hsame
  obtain ⟨a, b, ha, hb, -, -, hdc, hrep, hsum⟩ := h.sum candidate hmem (hop'.trans hop) c hcr
  obtain ⟨⟨x, hx, -⟩, ⟨y, hy, -⟩⟩ := operands_of_add hcheck hop
  have hax : t.resolve mode x = a := by
    have := hl ▸ ha
    simpa [Tracker.canonicalize, Operation.rename, hx] using this
  have hby : t.resolve mode y = b := by
    have := hrhs ▸ hb
    simpa [Tracker.canonicalize, Operation.rename, hy] using this
  rw [h.resolve_eq, hrep]
  refine ⟨?_, hdc, hrep⟩
  rw [hsum, ← hax, ← hby, h.values_resolve, h.values_resolve, hw]
  simp [step, hop, Opcode.kind, hr, valueOf, operands, hx, hy, Tracker.canonicalize,
    Operation.rename]

theorem Tracks.replaces_read (h : Tracks defined t m m') {s : Register} {r v : ValueId}
    (hop : op.opcode = .readGuestReg) (hreg : op.guestRegister = some s)
    (hr : op.result = some r) (hv : (t.registers s).value = some v)
    (hw : (op.width = .i64 ∧ (t.registers s).full = true) ∨
      (op.width = .i32 ∧ (t.registers s).zeroExtended = true)) :
    Replaces rt defined t m m' op r (t.resolve mode v) := by
  have hfact := h.register s
  have hvalue : op.width.hostResult (m.guest.regs s) = m.values v := by
    rcases hw with ⟨hw, hf⟩ | ⟨hw, hz⟩
    · rw [hw]
      exact hfact.full v hv hf
    · rw [hw]
      exact hfact.zeroExtended v hv hz
  refine ⟨?_, ?_, ?_⟩
  · rw [h.values_resolve, ← hvalue]
    simp [step, hop, Opcode.kind, hr, valueOf, hreg]
  · rw [h.resolve_eq]
    exact h.closed v (hfact.defined v hv)
  · rw [h.resolve_eq]
    exact h.idempotent v

theorem Tracks.replaces (h : Tracks defined t m m') (rt : Runtime M E)
    (hcheck : checkOperation defined op = [])
    {r source : ValueId} (hr : op.result = some r)
    (hs : t.replacementFor mode (t.canonicalize mode op) = some source) :
    Replaces rt defined t m m' op r source := by
  unfold Tracker.replacementFor at hs
  dsimp only at hs
  split at hs
  · next source' hreused =>
    cases hs
    split at hreused
    · next hc =>
      simp only [Bool.and_eq_true, beq_iff_eq] at hc
      obtain ⟨c, hc', rfl⟩ := Option.map_eq_some_iff.mp hreused
      exact h.replaces_add hcheck hc.2 hr hc'
    · cases hreused
  · split at hs
    · next s hop hreg =>
      split at hs
      · next hw =>
        obtain ⟨v, hv, rfl⟩ := Option.map_eq_some_iff.mp hs
        simp only [Bool.and_eq_true, Bool.or_eq_true, beq_iff_eq] at hw
        exact h.replaces_read hop hreg hr hv hw.2
      · cases hs
    · cases hs

/-- A dropped operation keeps the invariant : only the run of the block takes a step. -/
theorem Tracks.drop (h : Tracks defined t m m') {op' : Operation} {r source : ValueId}
    (hfresh : r < n ∧ defined r = false)
    (hsource : defined source = true) (hrep : t.replacements source = source) :
    Tracks (define n defined (some r)) (t.drop op' r source)
      { m with values := Function.update m.values r (m'.values source) } m' := by
  have hdef (v : ValueId) :
      define n defined (some r) v = true ↔ defined v = true ∨ some r = some v :=
    define_iff (by rintro _ ⟨⟩; exact hfresh.1) v
  have hne {v : ValueId} (hv : defined v = true) : v ≠ r := by
    rintro rfl
    rw [hfresh.2] at hv
    cases hv
  refine ⟨h.guest, h.memory, ?_, ?_, ?_, ?_, ?_, ?_, ?_⟩
  · intro v
    rw [Tracker.drop_replacements]
    rcases eq_or_ne v r with rfl | hv
    · simp
    · simp [Function.update_of_ne hv, h.values]
  · intro v
    rw [Tracker.drop_replacements]
    rcases eq_or_ne v r with rfl | hv
    · simp [Function.update_of_ne (hne hsource), hrep]
    · rw [Function.update_of_ne hv, Function.update_of_ne (h.replacements_ne hfresh.2 hv),
        h.idempotent]
  · intro v hv
    have hd : defined v = false := by
      by_contra hd
      simp [(hdef v).mpr (.inl (by simpa using hd))] at hv
    have hvr : v ≠ r := by
      rintro rfl
      simp [(hdef v).mpr (.inr rfl)] at hv
    rw [Tracker.drop_replacements, Function.update_of_ne hvr, h.fresh v hd]
  · intro v hv
    rw [Tracker.drop_replacements]
    rcases eq_or_ne v r with rfl | hvr
    · rw [Function.update_self]
      exact (hdef _).mpr (.inl hsource)
    · rw [Function.update_of_ne hvr]
      rcases (hdef v).mp hv with hv | hv
      · exact (hdef _).mpr (.inl (h.closed v hv))
      · exact absurd (Option.some.inj hv).symm hvr
  · intro s
    rw [Tracker.drop_registers]
    exact (h.register s).mono (fun v hv => (hdef v).mpr (.inl hv))
      fun v hv => Function.update_of_ne (hne hv) _ _
  · intro v hv
    rw [Tracker.drop_replacements] at hv
    have hvr : v ≠ r := by
      rintro rfl
      rw [Function.update_self] at hv
      exact hne hsource hv
    rw [Function.update_of_ne hvr] at hv
    refine Tracker.drop_valueHolds hvr ?_
    obtain ⟨h1, h2, h3⟩ := h.value v hv
    constructor <;> simpa only [Function.update_of_ne hvr]
  · intro c hc hadd q hq
    rw [Tracker.drop_operations] at hc
    obtain ⟨a, b, ha, hb, hda, hdb, hdq, hrepq, hsum⟩ := h.sum c hc hadd q hq
    refine ⟨a, b, ha, hb, (hdef a).mpr (.inl hda), (hdef b).mpr (.inl hdb),
      (hdef q).mpr (.inl hdq), ?_, hsum⟩
    rw [Tracker.drop_replacements, Function.update_of_ne (hne hdq), hrepq]

end

/-! ## Whole blocks -/

/-- The forwarded operations run as the operations do, from states that `Tracks` relates. -/
theorem run_forwardFrom (rt : Runtime M E) (mode : ForwardMode) {n : Nat} :
    ∀ (ops : List Operation) {defined : ValueId → Bool} {t : Tracker} {m m' : Machine M}
      {sawExit : Bool}, verifyFrom n ops defined sawExit = [] → Tracks defined t m m' →
      run rt (forwardFrom mode t ops) m' = run rt ops m
  | [], _, _, _, _, _, _, _ => rfl
  | op :: ops, defined, t, m, m', _, hv, h => by
    obtain ⟨-, hcheck, hfresh, hrest⟩ := verifyFrom_cons hv
    rw [forwardFrom]
    split
    · next r source hr hsource =>
      obtain ⟨hstep, hdef, hrep⟩ := h.replaces rt hcheck hr hsource
      rw [run_next hstep]
      have hr' : op.result = some r := hr
      rw [hr'] at hrest
      exact run_forwardFrom rt mode ops hrest (h.drop (hfresh r hr) hdef hrep)
    · have he : SameEffect op.result m m' (step rt op m) (step rt (t.canonicalize mode op) m') :=
        step_rename rt (h.operands_canonicalize op) h.guest h.memory
      rcases hstep : step rt op m with k | outcome <;>
        rcases hstep' : step rt (t.canonicalize mode op) m' with k' | outcome' <;>
          rw [hstep, hstep'] at he
      · rw [run_next hstep, run_next hstep']
        exact run_forwardFrom rt mode ops hrest
          (h.emit (Steps.of_step hstep) (Steps.of_step hstep') he hcheck hfresh)
      · exact he.elim
      · exact he.elim
      · rw [run_done hstep, run_done hstep']
        exact he

/-- `xor ecx, ecx; sete cl; mov eax, ecx; mov rdx, rcx` : both reads of the counter are
forwarded to the condition. -/
def setConditionBlock : Block where
  start := 0x1000
  operations :=
    [{ opcode := .constant, width := .i32, result := some 0 },
     { opcode := .writeGuestReg, width := .i32, lhs := some 0, guestRegister := some .rcx },
     { opcode := .evaluateCondition, width := .i8, result := some 1, condition := some .equal },
     { opcode := .writeGuestReg, width := .i8, lhs := some 1, guestRegister := some .rcx },
     { opcode := .readGuestReg, width := .i32, result := some 2, guestRegister := some .rcx },
     { opcode := .writeGuestReg, width := .i32, lhs := some 2, guestRegister := some .rax },
     { opcode := .readGuestReg, width := .i64, result := some 3, guestRegister := some .rcx },
     { opcode := .writeGuestReg, width := .i64, lhs := some 3, guestRegister := some .rdx },
     { opcode := .exitBlock, exitKind := .direct, target := some 0x2000 }]
  valueCount := 4

end Rosa
