import Rosa.Arm64.RegisterAssignment

/-!
# Helper calls of the baseline code

A helper may change every register that the procedure call standard does not make it keep.
Which registers a block pins is decided once, from a scan of its opcodes. Which registers are
saved around a call is decided where the call is emitted : only a byte load of a block that
pins its direct read and a byte store of a block that pins its direct write save the
caller-saved registers. A block pins its direct write only if it has no byte load, so the byte
stores of a block that has both call their helper with nothing saved, and the block may still
pin `x5`, `x6`, `x7` and `x30`.
-/

namespace Rosa

namespace Arm64

/-! ## The guard of the read span -/

/-- `ReadCandidate`. -/
structure ReadCandidate where
  operationIndex : Nat
  root : ValueId
  offset : Nat

/-- The `while` loop that takes constants off an address. A verified block has no cycle of
definitions, so as many turns as it has operations are enough. -/
def stripOffsets (block : Block) : Nat → ValueId → Nat → ValueId × Nat
  | 0, root, offset => (root, offset)
  | turns + 1, root, offset =>
    match block.definingOperation root with
    | none => (root, offset)
    | some d =>
      match d.lhs, d.rhs.bind block.definingOperation with
      | some lhs, some c =>
        if d.opcode = .add ∧ d.width = .i64 ∧ c.opcode = .constant ∧
            c.immediate.toNat ≤ 65535 - offset then
          stripOffsets block turns lhs (offset + c.immediate.toNat)
        else (root, offset)
      | _, _ => (root, offset)

/-- `candidates`. -/
def readCandidates (block : Block) : List ReadCandidate :=
  block.operations.zipIdx.filterMap fun (op, index) =>
    if op.opcode = .loadGuest ∧ op.width = .i8 then
      op.lhs.map fun address =>
        let (root, offset) := stripOffsets block block.operations.length address 0
        ⟨index, root, offset⟩
    else none

/-- `group`, the reads beside `first`. -/
def readGroup (block : Block) (first : ReadCandidate) : List ReadCandidate :=
  (readCandidates block).filter fun candidate =>
    decide (first.operationIndex ≤ candidate.operationIndex) && candidate.root == first.root &&
      decide (candidate.offset ≤ 0x0FFF)

/-- The operations that are not emitted in their place. -/
def leftOut (block : Block) (index : Nat) : Bool :=
  isDeadFlagUpdate block index (hasInternalSelfEdge block) ||
    (hasInternalSelfEdge block && (logicFlagSinkTarget block index).isSome) ||
    deferredExitFlagUpdate block == some index

/-- `keepsScratchRegisters`. -/
def keepsScratchRegisters (block : Block) (first last : Nat) (group : List ReadCandidate) :
    Bool :=
  (List.range last).all fun index =>
    decide (index ≤ first) || (block.operations[index]?).all fun op =>
      !(op.opcode == .loadGuest && group.all fun member => member.operationIndex != index) &&
        !(isAnyFlagUpdate op.opcode && !leftOut block index)

/-- The group that `adjacentDirectReads` records : its first read and the place of its last. -/
def adjacentReads (block : Block) : Option (ReadCandidate × Nat) :=
  if canPinCallerSavedGuestRegisters block && pinsDirectRead block then
    (readCandidates block).findSome? fun first =>
      let group := readGroup block first
      let last := group.getLast?.elim 0 ReadCandidate.operationIndex
      if first.offset = 0 ∧ 2 ≤ group.length ∧
          keepsScratchRegisters block first.operationIndex last group then
        some (first, last)
      else none
  else none

/-- The register that a value of 64 bits is read from. -/
def readRegister (block : Block) (v : ValueId) : Option Register :=
  ((block.definingOperation v).filter fun d =>
    d.opcode == .readGuestReg && d.width == .i64).bind Operation.guestRegister

/-- The guest register is written in the block. -/
def changesRegister (block : Block) (r : Register) : Bool :=
  block.operations.any fun op => op.guestRegister == some r &&
    (op.opcode == .writeGuestReg || op.opcode == .conditionalMoveGuestReg)

/-- The operation writes the counter back, moved on by a constant. -/
def advancesInduction (block : Block) (induction : ValueId) (r : Register) (compared : ValueId)
    (write : Operation) : Bool :=
  write.opcode == .writeGuestReg && write.guestRegister == some r && write.width == .i64 &&
    write.lhs == some compared &&
    (block.definingOperation compared).any fun increment =>
      increment.opcode == .add && increment.width == .i64 && increment.lhs.isSome &&
        increment.rhs.isSome &&
        let step :=
          if increment.lhs = some induction then increment.rhs
          else if increment.rhs = some induction then increment.lhs else none
        (step.bind block.definingOperation).any fun d =>
          d.opcode == .constant && d.immediate != 0 && d.immediate ≤ 0x0FFF

/-- The values that the guard of `directReadSpan` reads, with the place of its load : the
address and the counter. -/
def directReadSpan (block : Block) : Option (Nat × ValueId × ValueId) := do
  let (first, last) ← adjacentReads block
  let exit ← block.operations.getLast?
  let update ← deferredUpdate block
  let limit ← update.rhs.bind block.definingOperation
  let address ← block.definingOperation first.root
  let lhs ← address.lhs
  let rhs ← address.rhs
  let compared ← update.lhs
  if exit.condition = some .notEqual ∧ exit.target = some block.start ∧
      limit.opcode = .constant ∧ limit.immediate ≠ 0 ∧ address.opcode = .add ∧
      address.width = .i64 then
    [(lhs, rhs), (rhs, lhs)].findSome? fun (induction, offset) => do
      let inductionRegister ← readRegister block induction
      let offsetRegister ← readRegister block offset
      if !changesRegister block offsetRegister &&
          (block.operations.drop (last + 1)).any
            (advancesInduction block induction inductionRegister compared) then
        some (first.operationIndex, first.root, induction)
      else none
  else none

/-! ## Calls, and what is read after them -/

/-- The operations whose code calls a helper. -/
def callsHelper (op : Operation) : Bool :=
  match op.opcode.kind with
  | .helper | .load | .store => true
  | .flags =>
    match op.opcode with
    | .updateAddFlags | .updateLogicFlags => false
    | .updateSubFlags => op.width != .i8 && op.width != .i64
    | .updateDecFlags => op.width != .i64
    | _ => true
  | _ => false

/-- The operation is emitted where it stands. -/
def isEmitted (block : Block) (index : Nat) : Bool :=
  !leftOut block index && deferredExitResultOperation block != some index

/-- The operands of the deferred update that the code of the exit reads. -/
def deferredReads (block : Block) : List ValueId :=
  (deferredUpdate block).elim [] fun update =>
    if (deferredExitResultOperation block).isSome then [update.lhs, update.rhs].reduceOption
    else operandValues update

/-- The values whose registers the code of an operation reads. The guard of a write span reads
more, at the only call of its block. -/
def readsAt (block : Block) (index : Nat) (op : Operation) : List ValueId :=
  if isEmitted block index then
    (operandValues op).filter (!foldedImmediate block ·) ++
      (fusedSource block index op).toList.map ZeroFlagSource.value ++
      (sunkUpdate block index op).toList.filterMap Operation.lhs ++
      (directReadSpan block).elim []
        (fun span => if span.1 = index then [span.2.1, span.2.2] else []) ++
      if op.opcode = .exitBlock then deferredReads block else []
  else []

/-- The value is there before the call at `index` and is read after it. -/
def LiveAcross (block : Block) (index : Nat) (v : ValueId) : Prop :=
  (∃ j < index, ∃ d, block.operations[j]? = some d ∧ d.result = some v) ∧
    ∃ j > index, ∃ op, block.operations[j]? = some op ∧ v ∈ readsAt block j op

/-- `directByteRead` or `directByteWrite` : the code saves the caller-saved registers. -/
def savesCallerSaved (block : Block) (op : Operation) : Bool :=
  op.width == .i8 && ((op.opcode == .loadGuest && pinsDirectRead block) ||
    (op.opcode == .storeGuest && pinsDirectWrite block))

/-- `pushCallerSaved5Through15`. -/
def callerSaved5Through15 : List XRegister := [5, 6, 7, 30, 8, 9, 10, 11, 12, 13, 14, 15]

/-- The registers that the procedure call standard makes a helper keep. -/
def isCalleeSaved (r : XRegister) : Bool := decide (19 ≤ r ∧ r ≤ 29)

/-- The register has its content again after the call of an operation. -/
def SurvivesCall (block : Block) (op : Operation) (r : XRegister) : Prop :=
  isCalleeSaved r = true ∨ (savesCallerSaved block op = true ∧ r ∈ callerSaved5Through15)

/-- The operation at an index calls a helper. -/
def CallAt (block : Block) (index : Nat) (op : Operation) : Prop :=
  block.operations[index]? = some op ∧ isEmitted block index = true ∧ callsHelper op = true

/-- No call changes a register that is needed after it. The pinned guest registers all are :
every exit and every fault exit writes them back. -/
structure CallsKeepLiveState (block : Block) (assignments : ValueId → Option XRegister) :
    Prop where
  values : ∀ index op, CallAt block index op → ∀ v, LiveAcross block index v →
    ∀ r, hostRegister block assignments v = some r → SurvivesCall block op r
  guestRegisters : ∀ index op, CallAt block index op → ∀ g r,
    pinnedGuestRegisters block g = some r → SurvivesCall block op r

/-! ## When the calls keep it -/

/-- A value that is read after a call that saves nothing is kept in `x24` or in one of the
first three pins. -/
def ValuesKept (block : Block) : Prop :=
  ∀ index op, CallAt block index op → savesCallerSaved block op = false →
    ∀ v, LiveAcross block index v →
      ∃ r, pinnedValueRegisters block v = some r ∧ isCalleeSaved r = true

/-- The block may pin caller-saved registers, needs to, and has byte loads and byte stores. -/
def MixesAccesses (block : Block) : Prop :=
  canPinCallerSavedGuestRegisters block = true ∧ pinsDirectRead block = true ∧
    (∃ op ∈ block.operations, op.opcode = .storeGuest) ∧ 3 < (usedGuestRegisters block).card

section

variable {block : Block} {op : Operation} {index : Nat}

/-- The calls of a block that may pin caller-saved registers are byte accesses. -/
theorem byteAccess_of_callsHelper (hallows : allowsCallerSavedPins op = true)
    (hcalls : callsHelper op = true) :
    (op.opcode = .loadGuest ∨ op.opcode = .storeGuest) ∧ op.width = .i8 := by
  unfold allowsCallerSavedPins at hallows
  split at hallows
  case h_12 hop => exact ⟨.inl hop, by simpa using hallows⟩
  case h_13 hop => exact ⟨.inr hop, by simpa using hallows⟩
  case h_16 hop =>
    simp only [Bool.or_eq_true, beq_iff_eq] at hallows
    rcases hallows with hw | hw <;> simp [callsHelper, hop, Opcode.kind, hw] at hcalls
  case h_17 => cases hallows
  all_goals
    next hop => simp [callsHelper, hop, Opcode.kind] at hcalls

/-- The operation at the place of a definition is the definition. -/
theorem operations_definitionIndices (h : block.Verified) {v : ValueId} {d : Operation}
    (hd : block.definingOperation v = some d) :
    block.operations[definitionIndices block v]? = some d := by
  have hresult : d.result = some v := by simpa using List.find?_some hd
  have hmem : d ∈ block.operations := List.mem_reverse.mp (List.mem_of_find?_eq_some hd)
  obtain ⟨i, hi⟩ := List.getElem?_of_mem hmem
  have hzip : (d, i) ∈ block.operations.zipIdx.filter fun p => p.1.result == some v :=
    List.mem_filter.mpr ⟨List.mk_mem_zipIdx_iff_getElem?.mpr hi, by simp [hresult]⟩
  unfold definitionIndices
  cases hlast : (block.operations.zipIdx.filter fun p => p.1.result == some v).getLast? with
  | none =>
    rw [List.getLast?_eq_none_iff.mp hlast] at hzip
    cases hzip
  | some entry =>
    obtain ⟨hentry, hv⟩ := List.mem_filter.mp (List.mem_of_getLast? hlast)
    have hentry := List.mem_zipIdx_iff_getElem?.mp hentry
    have hsame := h.definingOperation_eq hentry (by simpa using hv)
    rw [hd] at hsame
    rw [Option.elim_some, hentry, Option.some.inj hsame]

/-- A store is emitted where it stands. -/
theorem isEmitted_store (h : block.Verified) (hop : block.operations[index]? = some op)
    (hstore : op.opcode = .storeGuest) : isEmitted block index = true := by
  have hdead (fuse : Bool) : isDeadFlagUpdate block index fuse = false := by
    simp [isDeadFlagUpdate, hop, hstore, fullyReplacesArithmeticFlags]
  have hsink : logicFlagSinkTarget block index = none := by
    simp [logicFlagSinkTarget, hop, hstore]
  have hdeferred : deferredExitFlagUpdate block ≠ some index := by
    intro hsome
    unfold deferredExitFlagUpdate at hsome
    split at hsome
    · obtain ⟨-, hsub⟩ := Option.filter_eq_some_iff.mp hsome
      simp [hop, hstore] at hsub
    · cases hsome
  have hresult : deferredExitResultOperation block ≠ some index := by
    intro hsome
    unfold deferredExitResultOperation at hsome
    obtain ⟨update, -, hsome⟩ := Option.bind_eq_some_iff.mp hsome
    obtain ⟨third, -, hsome⟩ := Option.bind_eq_some_iff.mp hsome
    obtain ⟨d, hd, hsome⟩ := Option.bind_eq_some_iff.mp hsome
    split at hsome
    · next hsub =>
      have hplace := operations_definitionIndices h hd
      rw [Option.some.inj hsome, hop] at hplace
      rw [← Option.some.inj hplace, hstore] at hsub
      cases hsub.1
    · cases hsome
  simp [isEmitted, leftOut, hdead, hsink, hdeferred, hresult]

theorem calleeSaved_of_mem {r : XRegister} (h : r ∈ ([26, 27, 28] : List XRegister)) :
    isCalleeSaved r = true := by
  revert r
  decide

theorem not_calleeSaved_of_mem {r : XRegister} (h : r ∈ scanRegisters) :
    isCalleeSaved r = false := by
  revert r
  decide

/-- What a call that saves the caller-saved registers keeps : everything a block uses. -/
theorem survivesCall_of_saves (hsaves : savesCallerSaved block op = true) {r : XRegister}
    (hr : r = 24 ∨ r ∈ ([26, 27, 28] : List XRegister) ∨
      r ∈ ([5, 6, 7, 30] : List XRegister) ∨ r ∈ scanRegisters) : SurvivesCall block op r := by
  have hall : ∀ r : XRegister, r = 24 ∨ r ∈ ([26, 27, 28] : List XRegister) ∨
      r ∈ ([5, 6, 7, 30] : List XRegister) ∨ r ∈ scanRegisters →
      isCalleeSaved r = true ∨ r ∈ callerSaved5Through15 := by
    decide
  exact (hall r hr).imp_right fun hmem => ⟨hsaves, hmem⟩

/-- The registers that a block uses for its values. -/
theorem hostRegister_mem {assignments : ValueId → Option XRegister}
    (halloc : allocateHostRegisters block = .ok assignments) {j : Nat} {d : Operation}
    {v : ValueId} (hd : block.operations[j]? = some d) (hv : d.result = some v)
    {r : XRegister} (hr : hostRegister block assignments v = some r) :
    (pinnedValueRegisters block v = some r ∧
        (r = 24 ∨ ∃ g, pinnedGuestRegisters block g = some r)) ∨
      (pinnedValueRegisters block v = none ∧ r ∈ scanRegisters) := by
  unfold hostRegister at hr
  cases hp : pinnedValueRegisters block v with
  | some pin =>
    rw [hp, Option.some_or] at hr
    obtain rfl := Option.some.inj hr
    exact .inl ⟨rfl, keptInPins_pinnedValueRegisters block v pin hp⟩
  | none =>
    rw [hp, Option.none_or] at hr
    obtain ⟨s, hs, hassigned⟩ := allocateHostRegisters_spec halloc (List.mem_of_getElem? hd) hv
    rw [hr] at hassigned
    obtain rfl := Option.some.inj hassigned
    exact .inr ⟨rfl, hs⟩

/-- A block with caller-saved pins that does not mix its accesses saves them at every call. -/
theorem savesCallerSaved_of_not_mixes (hmixes : ¬MixesAccesses block)
    (hcan : canPinCallerSavedGuestRegisters block = true)
    (hcard : 3 < (usedGuestRegisters block).card) (hcall : CallAt block index op) :
    savesCallerSaved block op = true := by
  obtain ⟨hop, -, hcalls⟩ := hcall
  have hmem := List.mem_of_getElem? hop
  have hboth := hcan
  simp only [canPinCallerSavedGuestRegisters, Bool.and_eq_true, Bool.or_eq_true,
    List.all_eq_true] at hboth
  obtain ⟨hpins, hallows⟩ := hboth
  obtain ⟨hload | hstore, hw⟩ := byteAccess_of_callsHelper (hallows op hmem) hcalls
  · have hread : pinsDirectRead block = true := by
      have hedge : hasInternalSelfEdge block = true := by
        rcases hpins with hp | hp
        · exact (Bool.and_eq_true_iff.mp hp).1
        · simp only [pinsDirectWrite, Bool.and_eq_true] at hp
          exact hp.1.1
      simp only [pinsDirectRead, hedge, Bool.true_and, List.any_eq_true]
      exact ⟨op, hmem, by simp [hload, hw]⟩
    simp [savesCallerSaved, hw, hload, hread]
  · have hwrite : pinsDirectWrite block = true := by
      rcases hpins with hp | hp
      · exact absurd ⟨hcan, hp, ⟨op, hmem, hstore⟩, hcard⟩ hmixes
      · exact hp
    simp [savesCallerSaved, hw, hstore, hwrite]

end

/-- The registers of the scan, for a block that it accepts. -/
def acceptedRegisters (block : Block) : ValueId → Option XRegister :=
  match allocateHostRegisters block with
  | .ok assignments => assignments
  | .error _ => fun _ => none

theorem allocateHostRegisters_eq {block : Block}
    (h : (allocateHostRegisters block).isOk = true) :
    allocateHostRegisters block = .ok (acceptedRegisters block) := by
  unfold acceptedRegisters
  cases ha : allocateHostRegisters block with
  | ok assignments => rfl
  | error e =>
    rw [ha] at h
    cases h

/-- `add dl, [rsi]; add rsi, rcx; cmp rsi, rdi; jne` : a loop over bytes with four guest
registers, one of them in `x5`. -/
def checksumLoop : Block where
  start := 0x1000
  operations :=
    [{ opcode := .readGuestReg, result := some 0, guestRegister := some .rsi },
     { opcode := .loadGuest, width := .i8, result := some 1, lhs := some 0 },
     { opcode := .readGuestReg, result := some 2, guestRegister := some .rdx },
     { opcode := .add, result := some 3, lhs := some 2, rhs := some 1 },
     { opcode := .writeGuestReg, lhs := some 3, guestRegister := some .rdx },
     { opcode := .readGuestReg, result := some 4, guestRegister := some .rcx },
     { opcode := .add, result := some 5, lhs := some 0, rhs := some 4 },
     { opcode := .writeGuestReg, lhs := some 5, guestRegister := some .rsi },
     { opcode := .readGuestReg, result := some 6, guestRegister := some .rdi },
     { opcode := .sub, result := some 7, lhs := some 5, rhs := some 6 },
     { opcode := .updateSubFlags, lhs := some 5, rhs := some 6, third := some 7 },
     { opcode := .exitBlock, exitKind := .conditional, condition := some .notEqual,
       target := some 0x1000, fallthrough := some 0x1020 }]
  valueCount := 8

/-- `mov al, [rsi]; mov [rdi], al; add rcx, rdx; jne` : the same with a store. No value is
read after the store, but `rdi` is in `x5`. -/
def copyLoop : Block where
  start := 0x1000
  operations :=
    [{ opcode := .readGuestReg, result := some 0, guestRegister := some .rsi },
     { opcode := .loadGuest, width := .i8, result := some 1, lhs := some 0 },
     { opcode := .readGuestReg, result := some 2, guestRegister := some .rdi },
     { opcode := .storeGuest, width := .i8, lhs := some 2, rhs := some 1 },
     { opcode := .readGuestReg, result := some 3, guestRegister := some .rcx },
     { opcode := .readGuestReg, result := some 4, guestRegister := some .rdx },
     { opcode := .add, result := some 5, lhs := some 3, rhs := some 4 },
     { opcode := .writeGuestReg, lhs := some 5, guestRegister := some .rcx },
     { opcode := .updateAddFlags, lhs := some 3, rhs := some 4, third := some 5 },
     { opcode := .exitBlock, exitKind := .conditional, condition := some .notEqual,
       target := some 0x1000, fallthrough := some 0x1020 }]
  valueCount := 6

end Arm64

end Rosa
