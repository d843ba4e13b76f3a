import Rosa.Arm64.Assembler
import Rosa.Arm64.FlagFusion

/-!
# Where the values of a block are kept

The first part of `compile` in `arm64/Backend.cpp`, which decides the host register of every
value and of every pinned guest register before any code is emitted. A linear scan gives each
value one of `x8` to `x15`. In a block with an internal self edge the guest registers that are
used most are pinned, to `x26`, `x27`, `x28` and, if every operation of the block allows it,
to `x5`, `x6`, `x7` and `x30` as well; values that are read from a pinned register or written
to one are kept in the pin, and the most expensive constant is kept in `x24`.
-/

namespace Rosa

namespace Arm64

/-! ## Deferred updates and uses -/

/-- `zeroFlagUpdateIndexAt`. -/
def zeroFlagUpdateIndexAt (block : Block) : Nat → Option Nat
  | 0 => none
  | index + 1 =>
    match block.operations[index]? with
    | some candidate =>
      if isAnyFlagUpdate candidate.opcode then
        if (zeroFlagSourceForUpdate candidate).isSome then some index else none
      else if preservesZeroFlagSource candidate.opcode then zeroFlagUpdateIndexAt block index
      else none
    | none => none

/-- An exit whose condition the host flags can answer. -/
def isDeferrableExit (exit : Operation) : Bool :=
  exit.opcode == .exitBlock && exit.exitKind == .conditional &&
    exit.condition.any fun c => c != .parityEven && c != .parityOdd

/-- `deferredExitFlagUpdate`. -/
def deferredExitFlagUpdate (block : Block) : Option Nat :=
  if hasInternalSelfEdge block && block.operations.getLast?.any isDeferrableExit then
    (zeroFlagUpdateIndexAt block (block.operations.length - 1)).filter fun index =>
      (block.operations[index]?).any fun update =>
        update.opcode == .updateSubFlags && update.width == .i64
  else none

/-- The deferred update itself. -/
def deferredUpdate (block : Block) : Option Operation :=
  (deferredExitFlagUpdate block).bind fun index => block.operations[index]?

/-- The values an operation names as its operands. -/
def operandValues (op : Operation) : List ValueId := [op.lhs, op.rhs, op.third].reduceOption

/-- The uses that `emittedUseCounts` and `emittedLastUses` count, with their places. -/
def emittedUses (block : Block) : List (Nat × ValueId) :=
  block.operations.zipIdx.flatMap fun (op, index) =>
    if isDeadFlagUpdate block index (hasInternalSelfEdge block) then []
    else (operandValues op).map fun v => (index, v)

/-- `emittedUseCounts`. -/
def emittedUseCounts (block : Block) (v : ValueId) : Nat :=
  (emittedUses block).countP fun use => use.2 == v

/-- `emittedLastUses`. -/
def emittedLastUses (block : Block) (v : ValueId) : Nat :=
  ((emittedUses block).filter fun use => use.2 == v).getLast?.elim 0 Prod.fst

/-- `definitionIndices`. -/
def definitionIndices (block : Block) (v : ValueId) : Nat :=
  (block.operations.zipIdx.filter fun p => p.1.result == some v).getLast?.elim 0 Prod.snd

/-- `isZeroExtendedDefinition`. -/
def isZeroExtendedDefinition (definition : Option Operation) : Bool :=
  definition.any fun d => d.width == .i32 &&
    [.constant, .readGuestReg, .add, .sub, .and, .or, .xor, .loadGuest].contains d.opcode

/-- `deferredExitResultOperation` : the subtraction that is made at the exit only. -/
def deferredExitResultOperation (block : Block) : Option Nat := do
  let update ← deferredUpdate block
  let third ← update.third
  let definition ← block.definingOperation third
  if definition.opcode = .sub ∧ definition.width = .i64 ∧ emittedUseCounts block third = 1 then
    some (definitionIndices block third)
  else none

/-- `foldedImmediate`. -/
def foldedImmediate (block : Block) (v : ValueId) : Bool :=
  block.operations.any fun op =>
    (op.opcode == .add || op.opcode == .sub) && (op.width == .i32 || op.width == .i64) &&
      op.rhs == some v && emittedUseCounts block v == 1 &&
      (block.definingOperation v).any fun d => d.opcode == .constant && d.immediate ≤ 0x0FFF

/-! ## Pins -/

/-- `constantMaterializationCost`. -/
def constantMaterializationCost (value : BitVec 64) : Nat :=
  let halfwords := (List.range 4).map fun k => (value >>> (16 * k)).setWidth 16
  max 1 (min (halfwords.countP (· != 0)) (halfwords.countP (· != 0xFFFF)))

/-- One turn of the loop for `pinnedLoopConstant`, with the cost of the constant found. -/
def considerLoopConstant (block : Block) (found : Option ValueId × Nat) (op : Operation) :
    Option ValueId × Nat :=
  match op.opcode, op.result with
  | .constant, some r =>
    if foldedImmediate block r || emittedUseCounts block r == 0 then found
    else
      let cost := constantMaterializationCost (op.width.hostResult op.immediate)
      if found.2 < cost then (some r, cost) else found
  | _, _ => found

/-- `pinnedLoopConstant`. -/
def pinnedLoopConstant (block : Block) : Option ValueId :=
  if hasInternalSelfEdge block && (deferredExitFlagUpdate block).isSome then
    (block.operations.foldl (considerLoopConstant block) (none, 0)).1
  else none

/-- `pinsDirectRead`. -/
def pinsDirectRead (block : Block) : Bool :=
  hasInternalSelfEdge block &&
    block.operations.any fun op => op.opcode == .loadGuest && op.width == .i8

/-- `pinsDirectWrite`. -/
def pinsDirectWrite (block : Block) : Bool :=
  hasInternalSelfEdge block && !pinsDirectRead block &&
    block.operations.any fun op => op.opcode == .storeGuest && op.width == .i8

/-- The operations of a block that may pin caller-saved registers. -/
def allowsCallerSavedPins (op : Operation) : Bool :=
  match op.opcode with
  | .constant | .readGuestReg | .writeGuestReg | .add | .sub | .and | .or | .xor
  | .evaluateCondition | .conditionalMoveGuestReg | .exitBlock => true
  | .loadGuest | .storeGuest => op.width == .i8
  | .updateAddFlags | .updateLogicFlags => true
  | .updateSubFlags => op.width == .i8 || op.width == .i64
  | _ => false

/-- `canPinCallerSavedGuestRegisters`. -/
def canPinCallerSavedGuestRegisters (block : Block) : Bool :=
  (pinsDirectRead block || pinsDirectWrite block) && block.operations.all allowsCallerSavedPins

/-- `guestRegisterUses`. -/
def guestRegisterUses (block : Block) (r : Register) : Nat :=
  if hasInternalSelfEdge block then
    block.operations.countP fun op => op.guestRegister == some r &&
      (op.opcode == .readGuestReg || op.opcode == .writeGuestReg ||
        op.opcode == .conditionalMoveGuestReg)
  else 0

/-- `pinCandidates`. -/
def pinCandidates (block : Block) : List XRegister :=
  [26, 27, 28] ++ if canPinCallerSavedGuestRegisters block then [5, 6, 7, 30] else []

/-- `std::ranges::max_element` : the first register with the most uses. -/
def mostUsed (uses : Register → Nat) : Register := (Register.all.argmax uses).getD .rax

/-- The loop over the candidates. -/
def pinGuestRegisters : List XRegister → (Register → Nat) → (Register → Option XRegister) →
    Register → Option XRegister
  | [], _, pins => pins
  | candidate :: candidates, uses, pins =>
    let r := mostUsed uses
    if uses r = 0 then pins
    else pinGuestRegisters candidates (Function.update uses r 0)
      (Function.update pins r (some candidate))

/-- `pinnedGuestRegisters`. -/
def pinnedGuestRegisters (block : Block) : Register → Option XRegister :=
  pinGuestRegisters (pinCandidates block) (guestRegisterUses block) fun _ => none

/-- `nextGuestWrite`. -/
def nextGuestWrite (block : Block) (index : Nat) (r : Register) : Nat :=
  ((List.range block.operations.length).find? fun candidate =>
    decide (index < candidate) && (block.operations[candidate]?).any fun op =>
      op.guestRegister == some r &&
        (op.opcode == .writeGuestReg || op.opcode == .conditionalMoveGuestReg)).getD
    block.operations.length

/-- One turn of the loop that keeps values in the pin of a guest register. -/
def coalesce (block : Block) (pinned : ValueId → Option XRegister) (entry : Operation × Nat) :
    ValueId → Option XRegister :=
  let (op, index) := entry
  match op.guestRegister with
  | none => pinned
  | some r =>
    match pinnedGuestRegisters block r with
    | none => pinned
    | some pin =>
      match op.opcode, op.result, op.lhs with
      | .readGuestReg, some v, _ =>
        if emittedLastUses block v ≤ nextGuestWrite block index r then
          Function.update pinned v (some pin)
        else pinned
      | .writeGuestReg, _, some source =>
        if op.width ≠ .i64 ∧ !isZeroExtendedDefinition (block.definingOperation source) then pinned
        else if nextGuestWrite block index r < emittedLastUses block source ∨
            (pinned source).any (· != pin) then pinned
        else if (List.range block.valueCount).any fun v => pinned v == some pin &&
            decide (definitionIndices block source < emittedLastUses block v) then pinned
        else Function.update pinned source (some pin)
      | _, _, _ => pinned

/-- `pinnedValueRegisters`. -/
def pinnedValueRegisters (block : Block) : ValueId → Option XRegister :=
  block.operations.zipIdx.foldl (coalesce block) fun v =>
    if pinnedLoopConstant block = some v then some 24 else none

/-! ## The linear scan -/

/-- The uses of one operation, as `allocateHostRegisters` sees them. -/
def countUses (block : Block) (lastUses : ValueId → Nat) (entry : Operation × Nat) :
    ValueId → Nat :=
  let (op, index) := entry
  let extend (lastUses : ValueId → Nat) (last : Nat) (v : ValueId) : ValueId → Nat :=
    Function.update lastUses v (max (lastUses v) last)
  let defined := op.result.elim lastUses fun r => Function.update lastUses r index
  let read := (operandValues op).foldl (extend · index) defined
  let fused := (fusedSource block index op).elim read fun source => extend read index source.value
  match if hasInternalSelfEdge block then logicFlagSinkTarget block index else none, op.lhs with
  | some target, some v => extend fused target v
  | _, _ => fused

/-- `lastUses`. -/
def lastUses (block : Block) : ValueId → Nat :=
  let counted := block.operations.zipIdx.foldl (countUses block) fun _ => 0
  ((deferredUpdate block).elim [] operandValues).foldl
    (fun uses v => Function.update uses v (block.operations.length - 1)) counted

/-- One turn of the scan : the values in the eight slots, and the registers given so far. -/
def allocateOperation (block : Block)
    (state : List (Option ValueId) × (ValueId → Option XRegister)) (entry : Operation × Nat) :
    Except String (List (Option ValueId) × (ValueId → Option XRegister)) :=
  let (op, index) := entry
  let active := state.1.map fun value => value.filter fun v => index ≤ lastUses block v
  match op.result with
  | none => .ok (active, state.2)
  | some r =>
    match active.findIdx? Option.isNone with
    | none => .error "R1 linear-scan register allocator exhausted x8...x15"
    | some slot =>
      .ok (active.set slot (some r), Function.update state.2 r (some (Fin.ofNat 32 (8 + slot))))

/-- `allocateHostRegisters`. -/
def allocateHostRegisters (block : Block) : Except String (ValueId → Option XRegister) :=
  if block.operations.any fun op =>
      (op.result.toList ++ operandValues op).any (block.valueCount ≤ ·) then
    .error "R1 register allocation saw an out-of-range IR value"
  else do
    let (_, assignments) ← block.operations.zipIdx.foldlM (allocateOperation block)
      (List.replicate 8 none, fun _ => none)
    if block.operations.any fun op => op.result.any fun r => (assignments r).isNone then
      .error "R1 register allocation left an IR value unassigned"
    else .ok assignments

/-- `hostRegister`. -/
def hostRegister (block : Block) (assignments : ValueId → Option XRegister) (v : ValueId) :
    Option XRegister :=
  (pinnedValueRegisters block v).or (assignments v)

/-! ## Which guest registers are pinned -/

/-- The registers with a use left. -/
def registersWithUses (uses : Register → Nat) : Finset Register :=
  Register.all.toFinset.filter fun r => uses r ≠ 0

/-- The guest registers that a block reads, writes or moves to. -/
def usedGuestRegisters (block : Block) : Finset Register :=
  registersWithUses (guestRegisterUses block)

theorem mem_registersWithUses {uses : Register → Nat} {r : Register} :
    r ∈ registersWithUses uses ↔ uses r ≠ 0 := by
  simp [registersWithUses, Register.mem_all]

theorem registersWithUses_update (uses : Register → Nat) (r : Register) :
    registersWithUses (Function.update uses r 0) = (registersWithUses uses).erase r := by
  ext s
  rw [mem_registersWithUses, Finset.mem_erase, mem_registersWithUses, Function.update_apply]
  split
  · next h => simp [h]
  · next h => simp [h]

theorem le_mostUsed (uses : Register → Nat) (r : Register) : uses r ≤ uses (mostUsed uses) := by
  unfold mostUsed
  cases h : Register.all.argmax uses with
  | none => simp [Register.all] at h
  | some s => exact List.le_of_mem_argmax (Register.mem_all r) h

theorem registersWithUses_eq_empty {uses : Register → Nat} (h : uses (mostUsed uses) = 0) :
    registersWithUses uses = ∅ := by
  ext r
  have := le_mostUsed uses r
  rw [mem_registersWithUses]
  simp
  omega

/-- A pin is one of the candidates. -/
theorem pinGuestRegisters_mem {r : Register} {pin : XRegister} :
    ∀ {candidates : List XRegister} {uses : Register → Nat}
      {pins : Register → Option XRegister},
      pinGuestRegisters candidates uses pins r = some pin → pins r = some pin ∨ pin ∈ candidates
  | [], _, _, h => .inl h
  | candidate :: candidates, uses, pins, h => by
    simp only [pinGuestRegisters] at h
    split at h
    · exact .inl h
    · rcases pinGuestRegisters_mem h with h | h
      · rw [Function.update_apply] at h
        split at h
        · exact .inr (by simp [Option.some.inj h])
        · exact .inl h
      · exact .inr (List.mem_cons_of_mem _ h)

/-- A register without uses keeps its pin. -/
theorem pinGuestRegisters_of_eq_zero {r : Register} :
    ∀ {candidates : List XRegister} {uses : Register → Nat}
      {pins : Register → Option XRegister}, uses r = 0 →
      pinGuestRegisters candidates uses pins r = pins r
  | [], _, _, _ => rfl
  | candidate :: candidates, uses, pins, h => by
    simp only [pinGuestRegisters]
    split
    · rfl
    · next hne =>
      have hr : r ≠ mostUsed uses := fun he => hne (he ▸ h)
      rw [pinGuestRegisters_of_eq_zero (by rw [Function.update_of_ne hr, h]),
        Function.update_of_ne hr]

/-- With few enough registers the later candidates are not reached. -/
theorem pinGuestRegisters_append {later : List XRegister} :
    ∀ {candidates : List XRegister} {uses : Register → Nat}
      {pins : Register → Option XRegister},
      (registersWithUses uses).card ≤ candidates.length →
      pinGuestRegisters (candidates ++ later) uses pins = pinGuestRegisters candidates uses pins
  | [], uses, pins, h => by
    have hzero : uses (mostUsed uses) = 0 := by
      by_contra hne
      have := Finset.card_pos.mpr ⟨_, mem_registersWithUses.mpr hne⟩
      simp at h
      simp [h] at this
    cases later with
    | nil => rfl
    | cons candidate later => simp [pinGuestRegisters, hzero]
  | candidate :: candidates, uses, pins, h => by
    simp only [List.cons_append, pinGuestRegisters]
    split
    · rfl
    · next hne =>
      refine pinGuestRegisters_append ?_
      rw [registersWithUses_update, Finset.card_erase_of_mem (mem_registersWithUses.mpr hne)]
      simp only [List.length_cons] at h
      omega

/-- With more registers the next candidate is some register's pin. -/
theorem exists_pinned {next : XRegister} {later : List XRegister} :
    ∀ {candidates : List XRegister} {uses : Register → Nat}
      {pins : Register → Option XRegister},
      candidates.length < (registersWithUses uses).card →
      ∃ r, pinGuestRegisters (candidates ++ next :: later) uses pins r = some next
  | [], uses, pins, h => by
    have hne : uses (mostUsed uses) ≠ 0 := fun hzero => by
      simp [registersWithUses_eq_empty hzero] at h
    refine ⟨mostUsed uses, ?_⟩
    simp only [List.nil_append, pinGuestRegisters, if_neg hne]
    rw [pinGuestRegisters_of_eq_zero (Function.update_self ..), Function.update_self]
  | candidate :: candidates, uses, pins, h => by
    have hne : uses (mostUsed uses) ≠ 0 := fun hzero => by
      simp [registersWithUses_eq_empty hzero] at h
    simp only [List.cons_append, pinGuestRegisters, if_neg hne]
    refine exists_pinned ?_
    rw [registersWithUses_update, Finset.card_erase_of_mem (mem_registersWithUses.mpr hne)]
    simp only [List.length_cons] at h
    omega

/-- The pins of a block. -/
theorem pinnedGuestRegisters_mem {block : Block} {r : Register} {pin : XRegister}
    (h : pinnedGuestRegisters block r = some pin) :
    pin ∈ [26, 27, 28] ∨ (canPinCallerSavedGuestRegisters block = true ∧
      3 < (usedGuestRegisters block).card ∧ pin ∈ [5, 6, 7, 30]) := by
  rcases Nat.lt_or_ge 3 (usedGuestRegisters block).card with hlt | hle
  · rcases pinGuestRegisters_mem h with h | h
    · cases h
    · rcases List.mem_append.mp h with h | h
      · exact .inl h
      · split at h
        · next hcan => exact .inr ⟨hcan, hlt, h⟩
        · cases h
  · have hlength : (registersWithUses (guestRegisterUses block)).card ≤
        ([26, 27, 28] : List XRegister).length := hle
    unfold pinnedGuestRegisters pinCandidates at h
    rw [pinGuestRegisters_append hlength] at h
    rcases pinGuestRegisters_mem h with h | h
    · cases h
    · exact .inl h

/-- More than three guest registers need a caller-saved pin. -/
theorem exists_callerSaved_pin {block : Block}
    (hcan : canPinCallerSavedGuestRegisters block = true)
    (hcard : 3 < (usedGuestRegisters block).card) :
    ∃ r, pinnedGuestRegisters block r = some 5 := by
  unfold pinnedGuestRegisters pinCandidates
  rw [if_pos hcan]
  exact exists_pinned hcard

/-! ## Which registers hold values -/

/-- The values are kept in `x24` or in the pin of a guest register. -/
def KeptInPins (block : Block) (pinned : ValueId → Option XRegister) : Prop :=
  ∀ v pin, pinned v = some pin → pin = 24 ∨ ∃ r, pinnedGuestRegisters block r = some pin

theorem KeptInPins.update {block : Block} {pinned : ValueId → Option XRegister}
    (h : KeptInPins block pinned) (v : ValueId) {r : Register} {pin : XRegister}
    (hr : pinnedGuestRegisters block r = some pin) :
    KeptInPins block (Function.update pinned v (some pin)) := by
  intro w p hp
  rw [Function.update_apply] at hp
  split at hp
  · obtain rfl := Option.some.inj hp
    exact .inr ⟨r, hr⟩
  · exact h w p hp

theorem KeptInPins.coalesce {block : Block} {pinned : ValueId → Option XRegister}
    (h : KeptInPins block pinned) (entry : Operation × Nat) :
    KeptInPins block (coalesce block pinned entry) := by
  obtain ⟨op, index⟩ := entry
  simp only [Arm64.coalesce]
  split
  · exact h
  · split
    · exact h
    · next pin hr =>
      split
      · split
        · exact h.update _ hr
        · exact h
      · split
        · exact h
        · split
          · exact h
          · split
            · exact h
            · exact h.update _ hr
      · exact h

theorem keptInPins_pinnedValueRegisters (block : Block) :
    KeptInPins block (pinnedValueRegisters block) := by
  have hfold (entries : List (Operation × Nat)) : ∀ {pinned : ValueId → Option XRegister},
      KeptInPins block pinned → KeptInPins block (entries.foldl (coalesce block) pinned) := by
    induction entries with
    | nil => exact id
    | cons entry entries ih => exact fun h => ih (h.coalesce entry)
  refine hfold _ fun v pin h => ?_
  split at h
  · exact .inl (Option.some.inj h).symm
  · cases h

/-- The registers of the scan. -/
def scanRegisters : List XRegister := [8, 9, 10, 11, 12, 13, 14, 15]

/-- The state of the scan has eight slots and has given registers of the scan only. -/
def ScanState (state : List (Option ValueId) × (ValueId → Option XRegister)) : Prop :=
  state.1.length = 8 ∧ ∀ v r, state.2 v = some r → r ∈ scanRegisters

theorem ScanState.allocateOperation {block : Block} {entry : Operation × Nat}
    {state state' : List (Option ValueId) × (ValueId → Option XRegister)} (h : ScanState state)
    (ha : allocateOperation block state entry = .ok state') : ScanState state' := by
  obtain ⟨op, index⟩ := entry
  simp only [Arm64.allocateOperation] at ha
  split at ha
  · cases ha
    exact ⟨by simpa using h.1, h.2⟩
  · split at ha
    · cases ha
    · next slot hslot =>
      cases ha
      obtain ⟨hlt, -⟩ := List.findIdx?_eq_some_iff_getElem.mp hslot
      simp only [List.length_map, h.1] at hlt
      refine ⟨by simpa using h.1, fun v r hr => ?_⟩
      dsimp only at hr
      rw [Function.update_apply] at hr
      split at hr
      · obtain rfl := Option.some.inj hr
        interval_cases slot <;> decide
      · exact h.2 v r hr

/-- Every value of a block that the backend accepts has one of the registers of the scan. -/
theorem allocateHostRegisters_spec {block : Block} {assignments : ValueId → Option XRegister}
    (h : allocateHostRegisters block = .ok assignments) {op : Operation} {v : ValueId}
    (hop : op ∈ block.operations) (hv : op.result = some v) :
    ∃ r ∈ scanRegisters, assignments v = some r := by
  have hfold (entries : List (Operation × Nat)) :
      ∀ {state state' : List (Option ValueId) × (ValueId → Option XRegister)},
      ScanState state → entries.foldlM (allocateOperation block) state = .ok state' →
      ScanState state' := by
    induction entries with
    | nil =>
      intro state state' hs h
      obtain rfl : state = state' := by simpa [pure, Except.pure] using h
      exact hs
    | cons entry entries ih =>
      intro state state' hs h
      rw [List.foldlM_cons] at h
      cases hstep : allocateOperation block state entry with
      | error e => simp [hstep, bind, Except.bind] at h
      | ok next =>
        simp only [hstep, bind, Except.bind] at h
        exact ih (hs.allocateOperation hstep) h
  unfold allocateHostRegisters at h
  split at h
  · cases h
  · cases hscan : block.operations.zipIdx.foldlM (allocateOperation block)
        (List.replicate 8 none, fun _ => none) with
    | error e =>
      simp only [hscan, bind, Except.bind] at h
      cases h
    | ok state =>
      simp only [hscan, bind, Except.bind] at h
      have hstate : ScanState state := hfold _ ⟨by simp, by simp⟩ hscan
      split at h
      · cases h
      · next hall =>
        cases h
        simp only [List.any_eq_true, not_exists, not_and] at hall
        have hsome := hall op hop
        simp only [hv, Option.any_some, Option.isNone_iff_eq_none] at hsome
        obtain ⟨r, hr⟩ := Option.ne_none_iff_exists'.mp hsome
        exact ⟨r, hstate.2 v r hr, hr⟩

end Arm64

end Rosa
