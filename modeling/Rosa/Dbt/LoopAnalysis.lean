import Rosa.IR.Semantics
import Rosa.Guest.AddressSpace

/-!
# Which loops the optimizing tier takes

`analyzeLoop` and `prepareMemory` of `dbt/LlvmBackend.cpp`. The analysis is one pass over
the operations of a block, with a second pass for the blocks that touch guest memory :
those are taken only when one register counts up to a constant limit and every address is
that register plus an unchanged register plus constants.

A pointer into `block.operations` is the operation with its index. A definition is
recorded under the value's number, so `defined` is whether there is one.
-/

namespace Rosa

/-! ## Plans -/

/-- `MemoryLoopPlan::Access`. -/
inductive LoopAccess
  | read | write
  deriving DecidableEq, Repr

/-- `MemoryLoopPlan::Termination`. -/
inductive Termination
  | exactNotEqual | unsignedBelow
  deriving DecidableEq, Repr

/-- `MemoryLoopPlan`. -/
structure MemoryLoopPlan where
  inductionRegister : Register
  baseRegister : Register
  stepRegister : Option Register
  constantStep : BitVec 64
  limit : BitVec 64
  minimumOffset : BitVec 64
  maximumOffset : BitVec 64
  access : LoopAccess
  termination : Termination
  deriving DecidableEq, Repr

/-- `LoopAnalysis`, for a block that is taken. -/
structure LoopAnalysis where
  touchedRegisters : Register → Bool
  finalFlags : Operation
  exit : Operation
  selfEdgeWhenConditionTrue : Bool
  memory : Option MemoryLoopPlan

/-- `isReplacingFlagUpdate`. -/
def isReplacingFlagUpdate (opcode : Opcode) : Bool :=
  opcode == .updateAddFlags || opcode == .updateSubFlags || opcode == .updateLogicFlags

/-- `isPreservingCarryFlagUpdate`. -/
def isPreservingCarryFlagUpdate (opcode : Opcode) : Bool :=
  opcode == .updateIncFlags || opcode == .updateDecFlags

/-! ## The pass over the operations -/

/-- The operation that defines each value, with its index. -/
abbrev Definitions := ValueId → Option (Nat × Operation)

/-- What the pass has collected. -/
structure LoopScan where
  touchedRegisters : Register → Bool := fun _ => false
  definitions : Definitions := fun _ => none
  flagUpdates : List Opcode := []
  memoryOperations : List Operation := []
  finalFlags : Option Operation := none
  exit : Option Operation := none
  selfEdgeWhenConditionTrue : Bool := false

namespace LoopScan

/-- `flagsAvailable`, which is set together with the final flags. -/
def flagsAvailable (s : LoopScan) : Bool := s.finalFlags.isSome

/-- `use`. -/
def use (s : LoopScan) : Option ValueId → Bool
  | some v => (s.definitions v).isSome
  | none => false

/-- The operation defines the value. -/
def setDefinition (s : LoopScan) (r : ValueId) (index : Nat) (op : Operation) : LoopScan :=
  { s with definitions := Function.update s.definitions r (some (index, op)) }

/-- `define`. -/
def define (s : LoopScan) (valueCount index : Nat) (op : Operation) : Option LoopScan :=
  match op.result with
  | some r =>
    if r < valueCount ∧ s.definitions r = none then some (s.setDefinition r index op) else none
  | none => none

/-- The register is touched. -/
def setTouched (s : LoopScan) (r : Register) : LoopScan :=
  { s with touchedRegisters := Function.update s.touchedRegisters r true }

/-- `touch`. -/
def touch (s : LoopScan) : Option Register → Option LoopScan := Option.map s.setTouched

/-- The scan goes on if the condition holds. -/
def whenever (s : LoopScan) (condition : Bool) : Option LoopScan :=
  if condition then some s else none

/-- A flag update is noted. -/
def updateFlags (s : LoopScan) (op : Operation) : LoopScan :=
  { s with flagUpdates := s.flagUpdates ++ [op.opcode], finalFlags := some op }

/-- A memory operation is noted. -/
def accessMemory (s : LoopScan) (op : Operation) : LoopScan :=
  { s with memoryOperations := s.memoryOperations ++ [op] }

/-- The case for `ExitBlock`. -/
def exitBlock (s : LoopScan) (block : Block) (index : Nat) (op : Operation) : Option LoopScan :=
  if index + 1 ≠ block.operations.length ∨ op.exitKind ≠ .conditional ∨ op.condition.isNone then
    none
  else
    match op.target, op.fallthrough with
    | some target, some fallthrough =>
      let targetIsSelf := target == block.start
      let fallthroughIsSelf := fallthrough == block.start
      if targetIsSelf == fallthroughIsSelf then none
      else some { s with exit := some op, selfEdgeWhenConditionTrue := targetIsSelf }
    | _, _ => none

/-- The `switch` over one operation. -/
def operation (s : LoopScan) (block : Block) (index : Nat) (op : Operation) : Option LoopScan :=
  match op.opcode with
  | .constant => s.define block.valueCount index op
  | .readGuestReg => do (← s.touch op.guestRegister).define block.valueCount index op
  | .writeGuestReg => do (← s.touch op.guestRegister).whenever (s.use op.lhs)
  | .conditionalMoveGuestReg => do
    let s ← s.touch op.guestRegister
    let s ← s.whenever (op.condition.isSome && s.flagsAvailable)
    match op.lhs with
    | some v => s.whenever (s.use (some v))
    | none => s.touch (Register.ofIndex? op.immediate.toNat)
  | .add | .sub | .and | .or | .xor => do
    (← s.whenever (s.use op.lhs && s.use op.rhs)).define block.valueCount index op
  | .evaluateCondition => do
    (← s.whenever (op.condition.isSome && s.flagsAvailable)).define block.valueCount index op
  | .loadGuest => do
    let s ← s.whenever (op.width == .i8 && s.use op.lhs)
    some ((← s.define block.valueCount index op).accessMemory op)
  | .storeGuest => do
    some ((← s.whenever (op.width == .i8 && s.use op.lhs && s.use op.rhs)).accessMemory op)
  | .updateAddFlags | .updateSubFlags => do
    some ((← s.whenever (s.use op.lhs && s.use op.rhs && s.use op.third)).updateFlags op)
  | .updateIncFlags | .updateDecFlags => do
    some ((← s.whenever (s.use op.lhs && s.use op.rhs)).updateFlags op)
  | .updateLogicFlags => do some ((← s.whenever (s.use op.lhs)).updateFlags op)
  | .exitBlock => s.exitBlock block index op
  | _ => none

/-- The loop over the operations from `index` on. -/
def operations (block : Block) : Nat → List Operation → LoopScan → Option LoopScan
  | _, [], s => some s
  | index, op :: ops, s => do operations block (index + 1) ops (← s.operation block index op)

/-! ### What a step of the pass can do -/

/-- The operations the pass accepts, with what it collects from each. -/
inductive Accepts (block : Block) (index : Nat) (s : LoopScan) (op : Operation) : LoopScan → Prop
  | constant {r : ValueId} (hop : op.opcode = .constant) (hr : op.result = some r)
      (hfresh : s.definitions r = none) : Accepts block index s op (s.setDefinition r index op)
  | read {r : ValueId} {reg : Register} (hop : op.opcode = .readGuestReg)
      (hreg : op.guestRegister = some reg) (hr : op.result = some r)
      (hfresh : s.definitions r = none) :
      Accepts block index s op ((s.setTouched reg).setDefinition r index op)
  | write {v : ValueId} {reg : Register} (hop : op.opcode = .writeGuestReg)
      (hreg : op.guestRegister = some reg) (hl : op.lhs = some v)
      (hdef : s.definitions v ≠ none) : Accepts block index s op (s.setTouched reg)
  | moveValue {v : ValueId} {reg : Register} {c : Condition}
      (hop : op.opcode = .conditionalMoveGuestReg) (hreg : op.guestRegister = some reg)
      (hc : op.condition = some c) (hf : s.finalFlags.isSome = true) (hl : op.lhs = some v) :
      Accepts block index s op (s.setTouched reg)
  | moveRegister {reg source : Register} {c : Condition}
      (hop : op.opcode = .conditionalMoveGuestReg) (hreg : op.guestRegister = some reg)
      (hc : op.condition = some c) (hf : s.finalFlags.isSome = true) (hl : op.lhs = none)
      (hsource : Register.ofIndex? op.immediate.toNat = some source) :
      Accepts block index s op ((s.setTouched reg).setTouched source)
  | arithmetic {a b r : ValueId}
      (hop : op.opcode = .add ∨ op.opcode = .sub ∨ op.opcode = .and ∨ op.opcode = .or ∨
        op.opcode = .xor)
      (hl : op.lhs = some a) (hr : op.rhs = some b) (hres : op.result = some r)
      (hfresh : s.definitions r = none) (hdef : s.definitions a ≠ none ∧ s.definitions b ≠ none) :
      Accepts block index s op (s.setDefinition r index op)
  | condition {r : ValueId} {c : Condition} (hop : op.opcode = .evaluateCondition)
      (hc : op.condition = some c) (hf : s.finalFlags.isSome = true) (hr : op.result = some r)
      (hfresh : s.definitions r = none) : Accepts block index s op (s.setDefinition r index op)
  | load {a r : ValueId} (hop : op.opcode = .loadGuest) (hw : op.width = .i8)
      (hl : op.lhs = some a) (hr : op.result = some r) (hfresh : s.definitions r = none)
      (hdef : s.definitions a ≠ none) :
      Accepts block index s op ((s.setDefinition r index op).accessMemory op)
  | store {a v : ValueId} (hop : op.opcode = .storeGuest) (hw : op.width = .i8)
      (hl : op.lhs = some a) (hr : op.rhs = some v) (hdef : s.definitions a ≠ none) :
      Accepts block index s op (s.accessMemory op)
  | compare {a b t : ValueId} (hop : op.opcode = .updateAddFlags ∨ op.opcode = .updateSubFlags)
      (hl : op.lhs = some a) (hr : op.rhs = some b) (ht : op.third = some t)
      (hdef : s.definitions a ≠ none ∧ s.definitions b ≠ none ∧ s.definitions t ≠ none) :
      Accepts block index s op (s.updateFlags op)
  | increment {a b : ValueId} (hop : op.opcode = .updateIncFlags ∨ op.opcode = .updateDecFlags)
      (hl : op.lhs = some a) (hr : op.rhs = some b) : Accepts block index s op (s.updateFlags op)
  | logic {a : ValueId} (hop : op.opcode = .updateLogicFlags) (hl : op.lhs = some a) :
      Accepts block index s op (s.updateFlags op)
  | exit {c : Condition} {target fallthrough : GuestAddress} (hop : op.opcode = .exitBlock)
      (hlast : index + 1 = block.operations.length) (hkind : op.exitKind = .conditional)
      (hc : op.condition = some c) (ht : op.target = some target)
      (hf : op.fallthrough = some fallthrough)
      (hself : (target == block.start) ≠ (fallthrough == block.start)) :
      Accepts block index s op
        { s with exit := some op, selfEdgeWhenConditionTrue := target == block.start }

variable {block : Block} {index : Nat} {s t : LoopScan} {op : Operation}

theorem use_eq_true {v : Option ValueId} :
    s.use v = true ↔ ∃ a, v = some a ∧ s.definitions a ≠ none := by
  cases v <;> simp [use, Option.isSome_iff_ne_none]

theorem whenever_eq_some {condition : Bool} :
    s.whenever condition = some t ↔ condition = true ∧ s = t := by
  cases condition <;> simp [whenever]

theorem touch_eq_some {r : Option Register} :
    s.touch r = some t ↔ ∃ reg, r = some reg ∧ s.setTouched reg = t := by
  simp [touch]

theorem define_eq_some {n : Nat} :
    s.define n index op = some t ↔
      ∃ r, op.result = some r ∧ (r < n ∧ s.definitions r = none) ∧
        s.setDefinition r index op = t := by
  cases h : op.result <;> simp [define, h]

theorem accepts_of_exitBlock (hop : op.opcode = .exitBlock)
    (h : s.exitBlock block index op = some t) : Accepts block index s op t := by
  unfold exitBlock at h
  split at h
  · cases h
  · next hfields =>
    push Not at hfields
    obtain ⟨hlast, hkind, hcond⟩ := hfields
    obtain ⟨c, hc⟩ : ∃ c, op.condition = some c :=
      Option.ne_none_iff_exists'.mp (by simpa using hcond)
    split at h
    · next target fallthrough ht hf =>
      dsimp only at h
      split at h
      · cases h
      · next hself =>
        obtain rfl := Option.some.inj h
        exact .exit hop hlast hkind hc ht hf (by simpa using hself)
    · cases h

theorem accepts_of_operation (h : s.operation block index op = some t) :
    Accepts block index s op t := by
  simp only [operation, Option.bind_eq_bind] at h
  split at h
  · next hop =>
    obtain ⟨r, hr, ⟨-, hfresh⟩, rfl⟩ := define_eq_some.mp h
    exact .constant hop hr hfresh
  · next hop =>
    simp only [Option.bind_eq_some_iff, touch_eq_some, define_eq_some] at h
    obtain ⟨_, ⟨reg, hreg, rfl⟩, r, hr, ⟨-, hfresh⟩, rfl⟩ := h
    exact .read hop hreg hr hfresh
  · next hop =>
    simp only [Option.bind_eq_some_iff, touch_eq_some, whenever_eq_some, use_eq_true] at h
    obtain ⟨_, ⟨reg, hreg, rfl⟩, ⟨v, hl, hdef⟩, rfl⟩ := h
    exact .write hop hreg hl hdef
  · next hop =>
    simp only [Option.bind_eq_some_iff, touch_eq_some, whenever_eq_some, Bool.and_eq_true,
      Option.isSome_iff_exists, flagsAvailable] at h
    obtain ⟨_, ⟨reg, hreg, rfl⟩, _, ⟨⟨⟨c, hc⟩, f, hf⟩, rfl⟩, h⟩ := h
    have hflags : s.finalFlags.isSome = true := Option.isSome_iff_exists.mpr ⟨f, hf⟩
    split at h
    · next v hl =>
      obtain ⟨-, rfl⟩ := whenever_eq_some.mp h
      exact .moveValue hop hreg hc hflags hl
    · next hl =>
      obtain ⟨source, hsource, rfl⟩ := touch_eq_some.mp h
      exact .moveRegister hop hreg hc hflags hl hsource
  case h_5 hop | h_6 hop | h_7 hop | h_8 hop | h_9 hop =>
    simp only [Option.bind_eq_some_iff, whenever_eq_some, define_eq_some, Bool.and_eq_true,
      use_eq_true] at h
    obtain ⟨_, ⟨⟨⟨a, ha, hda⟩, b, hb, hdb⟩, rfl⟩, r, hr, ⟨-, hfresh⟩, rfl⟩ := h
    exact .arithmetic (by simp [hop]) ha hb hr hfresh ⟨hda, hdb⟩
  · next hop =>
    simp only [Option.bind_eq_some_iff, whenever_eq_some, define_eq_some, Bool.and_eq_true,
      Option.isSome_iff_exists, flagsAvailable] at h
    obtain ⟨_, ⟨⟨⟨c, hc⟩, f, hf⟩, rfl⟩, r, hr, ⟨-, hfresh⟩, rfl⟩ := h
    exact .condition hop hc (Option.isSome_iff_exists.mpr ⟨f, hf⟩) hr hfresh
  · next hop =>
    simp only [Option.bind_eq_some_iff, whenever_eq_some, define_eq_some, Bool.and_eq_true,
      beq_iff_eq, use_eq_true, Option.some.injEq] at h
    obtain ⟨_, ⟨⟨hw, a, ha, hda⟩, rfl⟩, _, ⟨r, hr, ⟨-, hfresh⟩, rfl⟩, rfl⟩ := h
    exact .load hop hw ha hr hfresh hda
  · next hop =>
    simp only [Option.bind_eq_some_iff, whenever_eq_some, Bool.and_eq_true, beq_iff_eq,
      use_eq_true, Option.some.injEq] at h
    obtain ⟨_, ⟨⟨⟨hw, a, ha, hda⟩, v, hv, -⟩, rfl⟩, rfl⟩ := h
    exact .store hop hw ha hv hda
  case h_13 hop | h_14 hop =>
    simp only [Option.bind_eq_some_iff, whenever_eq_some, Bool.and_eq_true, use_eq_true,
      Option.some.injEq] at h
    obtain ⟨_, ⟨⟨⟨⟨a, ha, hda⟩, b, hb, hdb⟩, c, hc, hdc⟩, rfl⟩, rfl⟩ := h
    exact .compare (by simp [hop]) ha hb hc ⟨hda, hdb, hdc⟩
  case h_15 hop | h_16 hop =>
    simp only [Option.bind_eq_some_iff, whenever_eq_some, Bool.and_eq_true, use_eq_true,
      Option.some.injEq] at h
    obtain ⟨_, ⟨⟨⟨a, ha, -⟩, b, hb, -⟩, rfl⟩, rfl⟩ := h
    exact .increment (by simp [hop]) ha hb
  · next hop =>
    simp only [Option.bind_eq_some_iff, whenever_eq_some, use_eq_true, Option.some.injEq] at h
    obtain ⟨_, ⟨⟨a, ha, -⟩, rfl⟩, rfl⟩ := h
    exact .logic hop ha
  · next hop => exact accepts_of_exitBlock hop h
  · cases h

/-! ### What the pass collects -/

/-- The opcode updates the flags. -/
def isFlagUpdate (opcode : Opcode) : Bool :=
  isReplacingFlagUpdate opcode || isPreservingCarryFlagUpdate opcode

/-- The operation accesses guest memory. -/
def isAccess (op : Operation) : Bool := op.opcode == .loadGuest || op.opcode == .storeGuest

theorem Accepts.touched_mono (h : Accepts block index s op t) {r : Register}
    (hr : s.touchedRegisters r = true) : t.touchedRegisters r = true := by
  have htouch (u : LoopScan) (reg : Register) (hu : u.touchedRegisters r = true) :
      (u.setTouched reg).touchedRegisters r = true := by
    simp only [setTouched, Function.update_apply]
    split
    · rfl
    · exact hu
  cases h with
  | read | write | moveValue => exact htouch s _ hr
  | moveRegister => exact htouch _ _ (htouch s _ hr)
  | _ => exact hr

theorem Accepts.flagUpdates_eq (h : Accepts block index s op t) :
    t.flagUpdates = s.flagUpdates ++ [op.opcode].filter isFlagUpdate := by
  cases h with
  | arithmetic hop =>
    rcases hop with hop | hop | hop | hop | hop <;>
      simp [setDefinition, hop, isFlagUpdate, isReplacingFlagUpdate, isPreservingCarryFlagUpdate]
  | compare hop | increment hop =>
    rcases hop with hop | hop <;>
      simp [updateFlags, hop, isFlagUpdate, isReplacingFlagUpdate, isPreservingCarryFlagUpdate]
  | constant hop | read hop | write hop | moveValue hop | moveRegister hop | condition hop
  | load hop | store hop | logic hop | exit hop =>
    simp [setDefinition, setTouched, accessMemory, updateFlags, hop, isFlagUpdate,
      isReplacingFlagUpdate, isPreservingCarryFlagUpdate]

theorem Accepts.finalFlags_eq (h : Accepts block index s op t) :
    t.finalFlags = if isFlagUpdate op.opcode then some op else s.finalFlags := by
  cases h with
  | arithmetic hop =>
    rcases hop with hop | hop | hop | hop | hop <;>
      simp [setDefinition, hop, isFlagUpdate, isReplacingFlagUpdate, isPreservingCarryFlagUpdate]
  | compare hop | increment hop =>
    rcases hop with hop | hop <;>
      simp [updateFlags, hop, isFlagUpdate, isReplacingFlagUpdate, isPreservingCarryFlagUpdate]
  | constant hop | read hop | write hop | moveValue hop | moveRegister hop | condition hop
  | load hop | store hop | logic hop | exit hop =>
    simp [setDefinition, setTouched, accessMemory, updateFlags, hop, isFlagUpdate,
      isReplacingFlagUpdate, isPreservingCarryFlagUpdate]

theorem Accepts.memoryOperations_eq (h : Accepts block index s op t) :
    t.memoryOperations = s.memoryOperations ++ [op].filter isAccess := by
  cases h with
  | arithmetic hop =>
    rcases hop with hop | hop | hop | hop | hop <;> simp [setDefinition, hop, isAccess]
  | compare hop | increment hop =>
    rcases hop with hop | hop <;> simp [updateFlags, hop, isAccess]
  | constant hop | read hop | write hop | moveValue hop | moveRegister hop | condition hop
  | load hop | store hop | logic hop | exit hop =>
    simp [setDefinition, setTouched, accessMemory, updateFlags, hop, isAccess]

theorem Accepts.exit_eq (h : Accepts block index s op t) (hop : op.opcode ≠ .exitBlock) :
    t.exit = s.exit := by
  cases h with
  | exit hop' => exact absurd hop' hop
  | _ => rfl

variable {ops : List Operation}

/-- The pass, one operation at a time. -/
theorem operations_cons (h : operations block index (op :: ops) s = some t) :
    ∃ u, Accepts block index s op u ∧ operations block (index + 1) ops u = some t := by
  simp only [operations, Option.bind_eq_bind, Option.bind_eq_some_iff] at h
  obtain ⟨u, hu, ht⟩ := h
  exact ⟨u, accepts_of_operation hu, ht⟩

theorem operations_touched_mono (h : operations block index ops s = some t) {r : Register}
    (hr : s.touchedRegisters r = true) : t.touchedRegisters r = true := by
  induction ops generalizing index s with
  | nil =>
    obtain rfl := Option.some.inj h
    exact hr
  | cons op ops ih =>
    obtain ⟨u, hu, ht⟩ := operations_cons h
    exact ih ht (hu.touched_mono hr)

theorem operations_flagUpdates_eq (h : operations block index ops s = some t) :
    t.flagUpdates = s.flagUpdates ++ (ops.map (·.opcode)).filter isFlagUpdate := by
  induction ops generalizing index s with
  | nil =>
    obtain rfl := Option.some.inj h
    simp
  | cons op ops ih =>
    obtain ⟨u, hu, ht⟩ := operations_cons h
    rw [ih ht, hu.flagUpdates_eq, List.append_assoc, ← List.filter_append]
    rfl

theorem operations_memoryOperations_eq (h : operations block index ops s = some t) :
    t.memoryOperations = s.memoryOperations ++ ops.filter isAccess := by
  induction ops generalizing index s with
  | nil =>
    obtain rfl := Option.some.inj h
    simp
  | cons op ops ih =>
    obtain ⟨u, hu, ht⟩ := operations_cons h
    rw [ih ht, hu.memoryOperations_eq, List.append_assoc, ← List.filter_append]
    rfl

/-- The final flags are the last of the updates. -/
theorem operations_finalFlags_eq (h : operations block index ops s = some t)
    (hs : s.finalFlags.map (·.opcode) = s.flagUpdates.getLast?) :
    t.finalFlags.map (·.opcode) = t.flagUpdates.getLast? := by
  induction ops generalizing index s with
  | nil =>
    obtain rfl := Option.some.inj h
    exact hs
  | cons op ops ih =>
    obtain ⟨u, hu, ht⟩ := operations_cons h
    refine ih ht ?_
    rw [hu.finalFlags_eq, hu.flagUpdates_eq]
    cases hop : isFlagUpdate op.opcode <;> simp [hop, hs]

end LoopScan

/-! ## The memory plan -/

/-- What the search for the induction register has found. -/
structure InductionSearch where
  inductionRegister : Option Register := none
  stepRegister : Option Register := none
  constantStep : BitVec 64 := 0
  inductionWriteIndex : Nat
  deriving DecidableEq, Repr

/-- The definition of `stepValue`, if `readValue` is a 64-bit read of the register that
`write` writes and the step is a constant or a register. -/
def incrementStep (definitions : Definitions) (write : Operation)
    (readValue stepValue : ValueId) : Option Operation := do
  let (_, read) ← definitions readValue
  let (_, step) ← definitions stepValue
  if read.opcode = .readGuestReg ∧ read.width = .i64 ∧ read.guestRegister = write.guestRegister ∧
      (step.opcode = .constant ∨ step.opcode = .readGuestReg) then
    some step
  else none

/-- The step of a write that stores a 64-bit sum : its operands are tried in both orders. -/
def incrementOf (definitions : Definitions) (write : Operation) : Option Operation := do
  let (_, increment) ← definitions (← write.lhs)
  if increment.opcode = .add ∧ increment.width = .i64 then
    let lhs ← increment.lhs
    let rhs ← increment.rhs
    (incrementStep definitions write lhs rhs).or (incrementStep definitions write rhs lhs)
  else none

namespace InductionSearch

/-- The register `write` writes is the induction register, advanced by `step`. -/
def found (search : InductionSearch) (index : Nat) (write step : Operation) : InductionSearch :=
  let search :=
    { search with
      inductionRegister := write.guestRegister
      inductionWriteIndex := index }
  if step.opcode = .constant then { search with constantStep := step.immediate }
  else if step.width = .i64 ∧ step.guestRegister.isSome then
    { search with stepRegister := step.guestRegister }
  else search

/-- The body of the search loop. -/
def operation (definitions : Definitions) (update : Operation) (search : InductionSearch)
    (index : Nat) (op : Operation) : InductionSearch :=
  if op.opcode = .writeGuestReg ∧ op.width = .i64 ∧ op.guestRegister.isSome ∧
      op.lhs = update.lhs then
    match incrementOf definitions op with
    | some step => search.found index op step
    | none => search
  else search

/-- The search loop; a later match replaces an earlier one. -/
def operations (definitions : Definitions) (update : Operation) :
    Nat → List Operation → InductionSearch → InductionSearch
  | _, [], search => search
  | index, op :: ops, search =>
    operations definitions update (index + 1) ops (search.operation definitions update index op)

end InductionSearch

/-- The terms of an address. -/
structure AddressTerms where
  offset : BitVec 64 := 0
  inductionTerms : Nat := 0
  baseTerms : Nat := 0
  loadBase : Option Register := none
  deriving DecidableEq, Repr

/-- `flatten`, with the depth that is left. -/
def flatten (definitions : Definitions) (inductionRegister : Register)
    (inductionWriteIndex : Nat) : Nat → ValueId → AddressTerms → Option AddressTerms
  | 0, _, _ => none
  | depth + 1, value, terms => do
    let (index, definition) ← definitions value
    match definition.opcode with
    | .add =>
      if definition.width = .i64 then
        let terms ← flatten definitions inductionRegister inductionWriteIndex depth
          (← definition.lhs) terms
        flatten definitions inductionRegister inductionWriteIndex depth (← definition.rhs) terms
      else none
    | .constant =>
      if 2 ^ 64 - 1 - terms.offset.toNat < definition.immediate.toNat then none
      else some { terms with offset := terms.offset + definition.immediate }
    | .readGuestReg =>
      if definition.width = .i64 then
        let register ← definition.guestRegister
        if register = inductionRegister then
          if inductionWriteIndex ≤ index ∨ terms.inductionTerms ≠ 0 then none
          else some { terms with inductionTerms := 1 }
        else if terms.baseTerms ≠ 0 then none
        else some { terms with baseTerms := 1, loadBase := some register }
      else none
    | _ => none

/-- The base register and the offsets of the memory operations so far. -/
structure AddressRange where
  baseRegister : Option Register := none
  minimumOffset : BitVec 64 := BitVec.allOnes 64
  maximumOffset : BitVec 64 := 0
  deriving DecidableEq, Repr

/-- The body of the loop over the memory operations. -/
def AddressRange.operation (definitions : Definitions) (valueCount : Nat)
    (inductionRegister : Register) (inductionWriteIndex : Nat) (range : AddressRange)
    (op : Operation) : Option AddressRange := do
  let terms ← flatten definitions inductionRegister inductionWriteIndex (valueCount + 1)
    (← op.lhs) {}
  let loadBase ← terms.loadBase
  if terms.inductionTerms ≠ 1 ∨ terms.baseTerms ≠ 1 ∨ loadBase = inductionRegister ∨
      (range.baseRegister.isSome ∧ range.baseRegister ≠ some loadBase) then none
  else
    some
      { baseRegister := some loadBase
        minimumOffset := if terms.offset < range.minimumOffset then terms.offset
          else range.minimumOffset
        maximumOffset := if range.maximumOffset < terms.offset then terms.offset
          else range.maximumOffset }

/-- The loop over the memory operations. -/
def AddressRange.operations (definitions : Definitions) (valueCount : Nat)
    (inductionRegister : Register) (inductionWriteIndex : Nat) :
    List Operation → AddressRange → Option AddressRange
  | [], range => some range
  | op :: ops, range => do
    operations definitions valueCount inductionRegister inductionWriteIndex ops
      (← range.operation definitions valueCount inductionRegister inductionWriteIndex op)

/-- The operation may change the register. -/
def Operation.changes (op : Operation) (register : Register) : Bool :=
  op.guestRegister == some register &&
    (op.opcode == .writeGuestReg || op.opcode == .conditionalMoveGuestReg)

/-- The access of a plan, if all memory operations agree on it. -/
def loopAccess (memoryOperations : List Operation) : Option LoopAccess := do
  let first ← memoryOperations.head?
  let access := if first.opcode = .loadGuest then LoopAccess.read else .write
  if memoryOperations.any fun op => (op.opcode == .loadGuest) != (access == .read) then none
  else some access

/-- The termination test of a plan. -/
def loopTermination (exit : Operation) : Termination :=
  if exit.condition = some .notEqual then .exactNotEqual else .unsignedBelow

/-- The flags and the exit of a memory loop are a 64-bit comparison and a jump back on
`NotEqual` for a reading loop, on `Below` for a writing one. -/
def comparesLimit (s : LoopScan) (access : LoopAccess) (update exit : Operation) : Bool :=
  update.opcode == .updateSubFlags && update.width == .i64 && update.lhs.isSome &&
    update.rhs.isSome && s.selfEdgeWhenConditionTrue &&
    !(access == .read && exit.condition != some .notEqual) &&
    !(access == .write && exit.condition != some .below)

/-- The constant the loop counts up to. -/
def loopLimit (definitions : Definitions) (update : Operation) : Option (BitVec 64) := do
  let (_, limit) ← definitions (← update.rhs)
  if limit.opcode = .constant ∧ limit.immediate ≠ 0 then some limit.immediate else none

/-- The plan for a block with memory operations. -/
def memoryPlan (block : Block) (s : LoopScan) (update exit : Operation) :
    Option MemoryLoopPlan := do
  let access ← loopAccess s.memoryOperations
  if !comparesLimit s access update exit then none
  else
    let limit ← loopLimit s.definitions update
    let search := InductionSearch.operations s.definitions update 0 block.operations
      { inductionWriteIndex := block.operations.length }
    let inductionRegister ← search.inductionRegister
    if search.stepRegister.isNone ∧ search.constantStep = 0 then none
    else if (block.operations.countP fun op => op.changes inductionRegister) ≠ 1 ∨
        search.stepRegister = some inductionRegister then none
    else
      let range ← AddressRange.operations s.definitions block.valueCount inductionRegister
        search.inductionWriteIndex s.memoryOperations {}
      let baseRegister ← range.baseRegister
      if block.operations.any fun op => op.changes baseRegister then none
      else if search.stepRegister.any fun step =>
          (block.operations.any fun op => op.changes step) || step == baseRegister then none
      else
        some
          { inductionRegister := inductionRegister
            baseRegister := baseRegister
            stepRegister := search.stepRegister
            constantStep := search.constantStep
            limit := limit
            minimumOffset := range.minimumOffset
            maximumOffset := range.maximumOffset
            access := access
            termination := loopTermination exit }

/-- `analyzeLoop`. -/
def analyzeLoop (block : Block) : Option LoopAnalysis :=
  if block.operations = [] ∨ block.valueCount = 0 then none
  else do
    let s ← LoopScan.operations block 0 block.operations {}
    let finalFlags ← s.finalFlags
    let exit ← s.exit
    -- INC and DEC preserve CF; a block that also replaces it stays on the baseline tier.
    if isPreservingCarryFlagUpdate finalFlags.opcode ∧
        s.flagUpdates.dropLast.any isReplacingFlagUpdate then none
    else
      let analysis : LoopAnalysis :=
        { touchedRegisters := s.touchedRegisters
          finalFlags := finalFlags
          exit := exit
          selfEdgeWhenConditionTrue := s.selfEdgeWhenConditionTrue
          memory := none }
      if s.memoryOperations = [] then some analysis
      else some { analysis with memory := some (← memoryPlan block s finalFlags exit) }

/-- What the analysis says about the block it takes. -/
structure LoopAnalysis.Describes (analysis : LoopAnalysis) (block : Block) (scan : LoopScan) :
    Prop where
  scanned : LoopScan.operations block 0 block.operations {} = some scan
  touched : analysis.touchedRegisters = scan.touchedRegisters
  finalFlags : scan.finalFlags = some analysis.finalFlags
  exit : scan.exit = some analysis.exit
  selfEdge : analysis.selfEdgeWhenConditionTrue = scan.selfEdgeWhenConditionTrue
  carry : isPreservingCarryFlagUpdate analysis.finalFlags.opcode = true →
    ∀ op ∈ block.operations, isReplacingFlagUpdate op.opcode = false
  memory : if scan.memoryOperations = [] then analysis.memory = none
    else ∃ plan, memoryPlan block scan analysis.finalFlags analysis.exit = some plan ∧
      analysis.memory = some plan

/-- Updates that end in one that keeps the carry, with no replacing one before. -/
theorem not_replacing_of_dropLast {updates : List Opcode} {last : Opcode}
    (hlast : updates.getLast? = some last) (hkeep : isPreservingCarryFlagUpdate last = true)
    (h : updates.dropLast.any isReplacingFlagUpdate = false) :
    ∀ opcode ∈ updates, isReplacingFlagUpdate opcode = false := by
  intro opcode hmem
  rw [← List.dropLast_append_getLast? last hlast, List.mem_append, List.mem_singleton] at hmem
  rcases hmem with hmem | rfl
  · simpa using List.any_eq_false.mp h opcode hmem
  · revert hkeep
    cases opcode <;> decide

theorem analyzeLoop_describes {block : Block} {analysis : LoopAnalysis}
    (h : analyzeLoop block = some analysis) : ∃ scan, analysis.Describes block scan := by
  simp only [analyzeLoop, Option.bind_eq_bind] at h
  split at h
  · cases h
  · simp only [Option.bind_eq_some_iff] at h
    obtain ⟨scan, hscan, finalFlags, hfinal, exit, hexit, h⟩ := h
    split at h
    · cases h
    · next hcarry =>
      have hkeep : isPreservingCarryFlagUpdate finalFlags.opcode = true →
          ∀ op ∈ block.operations, isReplacingFlagUpdate op.opcode = false := by
        intro hp op hop
        by_contra hr
        have hlast : scan.flagUpdates.getLast? = some finalFlags.opcode := by
          rw [← LoopScan.operations_finalFlags_eq hscan rfl, hfinal]
          rfl
        have hall := not_replacing_of_dropLast hlast hp (by simpa [hp] using hcarry)
        refine hr (hall op.opcode ?_)
        rw [LoopScan.operations_flagUpdates_eq hscan]
        simp only [List.nil_append, List.mem_filter, List.mem_map]
        exact ⟨⟨op, hop, rfl⟩, by simp [LoopScan.isFlagUpdate, hr]⟩
      refine ⟨scan, ?_⟩
      split at h
      · next hmem =>
        obtain rfl := Option.some.inj h
        exact ⟨hscan, rfl, hfinal, hexit, rfl, hkeep, by simp [hmem]⟩
      · next hmem =>
        obtain ⟨plan, hplan, h⟩ := Option.bind_eq_some_iff.mp h
        obtain rfl := Option.some.inj h
        exact ⟨hscan, rfl, hfinal, hexit, rfl, hkeep, by simp [hmem, hplan]⟩

/-! ## Preparing the memory of a run -/

/-- `checkedAdd`. -/
def checkedAdd (lhs rhs : BitVec 64) : Option (BitVec 64) :=
  if 2 ^ 64 - 1 - lhs.toNat < rhs.toNat then none else some (lhs + rhs)

/-- The step of a run. -/
def MemoryLoopPlan.step (plan : MemoryLoopPlan) (regs : Register → BitVec 64) : BitVec 64 :=
  match plan.stepRegister with
  | some register => regs register
  | none => plan.constantStep

/-- The executions until the termination test ends the loop. -/
def MemoryLoopPlan.naturalExecutions (plan : MemoryLoopPlan) (remaining step : BitVec 64) :
    BitVec 64 :=
  match plan.termination with
  | .exactNotEqual => remaining / step
  | .unsignedBelow => 1 + (remaining - 1) / step

/-- The executions a plan allows, with the first and the last address they access. -/
structure LoopExtent where
  executions : BitVec 64
  firstAddress : BitVec 64
  lastAddress : BitVec 64
  deriving DecidableEq, Repr

/-- `prepareMemory` up to the view. -/
def loopExtent (plan : MemoryLoopPlan) (regs : Register → BitVec 64)
    (maximumExecutions : BitVec 64) : Option LoopExtent := do
  let induction := regs plan.inductionRegister
  let base := regs plan.baseRegister
  let step := plan.step regs
  if maximumExecutions = 0 ∨ step = 0 ∨ plan.limit ≤ induction then none
  else
    let remaining := plan.limit - induction
    if plan.termination = .exactNotEqual ∧ (remaining < step ∨ remaining % step ≠ 0) then none
    else
      let naturalExecutions := plan.naturalExecutions remaining step
      let executions := if maximumExecutions < naturalExecutions then maximumExecutions
        else naturalExecutions
      if executions = 0 ∨ BitVec.allOnes 64 / step < executions - 1 then none
      else
        let lastAdvance := (executions - 1) * step
        let firstAddress ← checkedAdd (← checkedAdd base induction) plan.minimumOffset
        let lastInduction ← checkedAdd induction lastAdvance
        let lastAddress ← checkedAdd (← checkedAdd base lastInduction) plan.maximumOffset
        if lastAddress < firstAddress ∨
            (plan.termination = .unsignedBelow ∧ executions = naturalExecutions ∧
              BitVec.allOnes 64 - lastInduction < step) then none
        else some ⟨executions, firstAddress, lastAddress⟩

/-- `PreparedMemory` : the mapping whose bytes the loop uses, with its index. -/
abbrev PreparedMemory := Nat × Mapping

/-- The permission a plan needs. -/
def LoopAccess.permission : LoopAccess → Permission
  | .read => { read := true }
  | .write => { write := true }

/-- `prepareMemory`; a view that throws is a refusal. -/
def prepareMemory (plan : MemoryLoopPlan) (regs : Register → BitVec 64)
    (maximumExecutions : BitVec 64) (s : AddressSpace) : Option PreparedMemory × AddressSpace :=
  match loopExtent plan regs maximumExecutions with
  | none => (none, s)
  | some extent =>
    match AddressSpace.directMemoryView extent.firstAddress.toNat plan.access.permission s with
    | (.ok (some (i, m)), s) =>
      if extent.lastAddress.toNat < m.base ∨
          m.bytes.size ≤ extent.lastAddress.toNat - m.base then (none, s)
      else (some (i, m), s)
    | (_, s) => (none, s)

end Rosa
