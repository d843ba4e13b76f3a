import Rosa.IR.Definitions
import Rosa.IR.Optimization

/-!
# Flag updates that are not emitted in their place

`compile` of `arm64/Backend.cpp` leaves out a flag update that the next one replaces before
anything reads it, answers conditions on the zero flag from the value that the flag was
computed from, and moves a logic update behind the byte load that follows it : on the slow
path of the load the update is emitted before the helper is called, on the fast path it is
not emitted at all. Each of the three has its own list of opcodes that may stand in between.

The rewritten block is run beside the block itself. Between an update that was left out and
the one that replaces it the two differ in the arithmetic flags, and the pending update
would make them equal : `FlagState` says so at every operation.
-/

namespace Rosa

namespace Arm64

/-! ## The analyses -/

/-- `ZeroFlagSource`. -/
structure ZeroFlagSource where
  value : ValueId
  width : Width
  deriving DecidableEq

/-- `zeroFlagSourceForUpdate`. -/
def zeroFlagSourceForUpdate (op : Operation) : Option ZeroFlagSource :=
  match op.opcode with
  | .updateAddFlags => op.third.map fun v => ⟨v, op.width⟩
  | .updateSubFlags =>
    if op.width = .i8 ∨ op.width = .i64 then op.third.map fun v => ⟨v, op.width⟩ else none
  | .updateLogicFlags => op.lhs.map fun v => ⟨v, op.width⟩
  | _ => none

/-- `isAnyFlagUpdate`. -/
def isAnyFlagUpdate (opcode : Opcode) : Bool := opcode.kind == .flags

/-- The opcodes of `isFlagSinkPure` and `isPureBetweenFlagUpdates`. -/
def pureOpcodes : List Opcode :=
  [.constant, .readGuestReg, .writeGuestReg, .add, .sub, .shiftLeft, .shiftRightLogical,
    .shiftRightArithmetic, .multiplyLow, .multiplyHighUnsigned, .multiplyHighSigned,
    .shiftRightDouble, .and, .or, .xor, .signExtend32, .byteSwap]

/-- `isFlagSinkPure`. -/
def isFlagSinkPure (opcode : Opcode) : Bool := pureOpcodes.contains opcode

/-- `isPureBetweenFlagUpdates`. -/
def isPureBetweenFlagUpdates (opcode : Opcode) : Bool := pureOpcodes.contains opcode

/-- `preservesZeroFlagSource`. -/
def preservesZeroFlagSource (opcode : Opcode) : Bool :=
  pureOpcodes.contains opcode || opcode == .evaluateCondition || opcode == .conditionalMoveGuestReg

/-- `fullyReplacesArithmeticFlags`, and with it `replacesArithmeticFlags`. -/
def fullyReplacesArithmeticFlags (opcode : Opcode) : Bool :=
  [.updateAddFlags, .updateAdcFlags, .updateSbbFlags, .updateSubFlags,
    .updateLogicFlags].contains opcode

/-- `consumesOnlyZeroFlag`. -/
def consumesOnlyZeroFlag (op : Operation) : Bool :=
  (op.opcode == .evaluateCondition || op.opcode == .conditionalMoveGuestReg) &&
    (op.condition == some .equal || op.condition == some .notEqual)

/-- The loop of `logicFlagSinkTarget` from an index on. -/
def sinkTargetFrom : Option Nat → Nat → List Operation → Option Nat
  | _, _, [] => none
  | target, index, op :: ops =>
    if isFlagSinkPure op.opcode then sinkTargetFrom target (index + 1) ops
    else
      match target with
      | none =>
        if op.opcode = .loadGuest ∧ op.width = .i8 then
          sinkTargetFrom (some index) (index + 1) ops
        else none
      | some target => if fullyReplacesArithmeticFlags op.opcode then some target else none

/-- `logicFlagSinkTarget`. -/
def logicFlagSinkTarget (block : Block) (updateIndex : Nat) : Option Nat :=
  match block.operations[updateIndex]? with
  | some op =>
    if op.opcode = .updateLogicFlags then
      sinkTargetFrom none (updateIndex + 1) (block.operations.drop (updateIndex + 1))
    else none
  | none => none

/-- `sunkLogicFlagUpdateAt`. -/
def sunkLogicFlagUpdateAt (block : Block) (loadIndex : Nat) : Option Nat :=
  (List.range loadIndex).find? fun index => logicFlagSinkTarget block index = some loadIndex

/-- `zeroFlagSourceAt`. -/
def zeroFlagSourceAt (block : Block) : Nat → Option ZeroFlagSource
  | 0 => none
  | index + 1 =>
    match block.operations[index]? with
    | some candidate =>
      if isAnyFlagUpdate candidate.opcode then zeroFlagSourceForUpdate candidate
      else if preservesZeroFlagSource candidate.opcode then zeroFlagSourceAt block index
      else none
    | none => none

/-- The loop of `isDeadFlagUpdate`. -/
def flagsReplacedBy (fuseZeroFlagConsumers : Bool) : List Operation → Bool
  | [] => false
  | op :: ops =>
    if fullyReplacesArithmeticFlags op.opcode then true
    else if fuseZeroFlagConsumers && consumesOnlyZeroFlag op then
      flagsReplacedBy fuseZeroFlagConsumers ops
    else if isPureBetweenFlagUpdates op.opcode then flagsReplacedBy fuseZeroFlagConsumers ops
    else false

/-- `isDeadFlagUpdate`. -/
def isDeadFlagUpdate (block : Block) (index : Nat) (fuseZeroFlagConsumers : Bool) : Bool :=
  match block.operations[index]? with
  | some op =>
    fullyReplacesArithmeticFlags op.opcode &&
      (!fuseZeroFlagConsumers || (zeroFlagSourceForUpdate op).isSome) &&
      flagsReplacedBy fuseZeroFlagConsumers (block.operations.drop (index + 1))
  | none => false

/-! ## The rewritten block -/

variable {M E : Type}

/-- The state with other flags. -/
def withFlags (m : Machine M) (rflags : BitVec 64) : Machine M :=
  { m with guest := { m.guest with rflags := rflags } }

/-- A condition that is answered from the value of the zero flag. -/
def fusedCondition (source : ZeroFlagSource) (condition : Option Condition)
    (values : ValueId → BitVec 64) : Bool :=
  if condition = some .equal then source.width.truncate (values source.value) == 0
  else source.width.truncate (values source.value) != 0

/-- A condition value or a conditional move, with the condition answered. -/
def conditionStep (op : Operation) (taken : Bool) (m : Machine M) : Effect M E :=
  match op.opcode with
  | .evaluateCondition =>
    match op.result with
    | some r => .next { m with values := Function.update m.values r (if taken then 1 else 0) }
    | none => .done .stuck
  | _ =>
    match op.guestRegister, conditionalMoveSource op (operands m.values op) m.guest with
    | some r, some source =>
      match conditionalMove op.width taken (m.guest.regs r) source with
      | some v => .next { m with guest := m.guest.setReg r v }
      | none => .done .stuck
    | _, _ => .done .stuck

/-- A load behind which a logic update was moved. The update is emitted on the slow path;
`fast` tells whether a load that succeeds takes the fast path. -/
def loadStep (rt : Runtime M E) (fast : Bool) (update op : Operation) (m : Machine M) :
    Effect M E :=
  match flagUpdate update (operands m.values update) m.guest.rflags with
  | none => .done .stuck
  | some rflags =>
    match step rt op m with
    | .next n => if fast then .next n else step rt op (withFlags m rflags)
    | .done _ => step rt op (withFlags m rflags)

/-- The value that answers the condition of an operation. -/
def fusedSource (block : Block) (index : Nat) (op : Operation) : Option ZeroFlagSource :=
  if hasInternalSelfEdge block && consumesOnlyZeroFlag op then zeroFlagSourceAt block index
  else none

/-- The logic update that the code of a load emits. -/
def sunkUpdate (block : Block) (index : Nat) (op : Operation) : Option Operation :=
  if hasInternalSelfEdge block && op.opcode == .loadGuest && op.width == .i8 then
    (sunkLogicFlagUpdateAt block index).bind fun k => block.operations[k]?
  else none

/-- One operation of the rewritten block. -/
def rewrittenStep (rt : Runtime M E) (block : Block) (fast : Nat → Bool) (index : Nat)
    (op : Operation) (m : Machine M) : Effect M E :=
  if isDeadFlagUpdate block index (hasInternalSelfEdge block) then .next m
  else if hasInternalSelfEdge block && (logicFlagSinkTarget block index).isSome then .next m
  else
    match fusedSource block index op, sunkUpdate block index op with
    | some source, _ => conditionStep op (fusedCondition source op.condition m.values) m
    | none, some update => loadStep rt (fast index) update op m
    | none, none => step rt op m

/-- The rewritten block from an index on. -/
def rewrittenRun (rt : Runtime M E) (block : Block) (fast : Nat → Bool) :
    Nat → List Operation → Machine M → Outcome M E
  | _, [], _ => .stuck
  | index, op :: ops, m =>
    match rewrittenStep rt block fast index op m with
    | .next m' => rewrittenRun rt block fast (index + 1) ops m'
    | .done outcome => outcome

/-- The state of the rewritten block before an operation, if it gets there. -/
def rewrittenTo (rt : Runtime M E) (block : Block) (fast : Nat → Bool) (start : Machine M) :
    Nat → Option (Machine M)
  | 0 => some start
  | index + 1 =>
    match rewrittenTo rt block fast start index, block.operations[index]? with
    | some m, some op =>
      match rewrittenStep rt block fast index op m with
      | .next m' => some m'
      | .done _ => none
    | _, _ => none

/-! ## Flags up to the arithmetic ones -/

/-- The flags agree but for the arithmetic ones, once the reserved bit is set. -/
def SameBase (f g : BitVec 64) : Prop :=
  (f &&& ~~~arithmeticFlagMask) ||| flagReservedOne =
    (g &&& ~~~arithmeticFlagMask) ||| flagReservedOne

theorem composeFlags_congr {f g : BitVec 64} (h : SameBase f g) (v : FlagValues) :
    composeFlags (f &&& ~~~arithmeticFlagMask) v =
      composeFlags (g &&& ~~~arithmeticFlagMask) v := by
  unfold SameBase at h
  simp only [composeFlags, h]

/-- What a full replacement does : it keeps the base and its flags are its own. -/
theorem flagUpdate_replaces {op : Operation} (h : fullyReplacesArithmeticFlags op.opcode = true)
    (o : Operands) : (∀ f, flagUpdate op o f = none) ∨
      ∃ v, ∀ f, flagUpdate op o f =
        some (composeFlags (f &&& ~~~arithmeticFlagMask) v) := by
  rcases o with ⟨lhs, rhs, third⟩
  simp only [fullyReplacesArithmeticFlags, List.contains_eq_mem, List.mem_cons,
    List.not_mem_nil, or_false, decide_eq_true_eq] at h
  rcases h with h | h | h | h | h
  all_goals
    cases lhs with
    | none => exact .inl fun f => by simp [flagUpdate, h]
    | some l => ?_
  case inr.inr.inr.inr =>
    exact .inr ⟨_, fun f => by simp only [flagUpdate, h, updateLogicFlags]; rfl⟩
  all_goals
    cases rhs with
    | none => exact .inl fun f => by simp [flagUpdate, h]
    | some r => ?_
  all_goals
    cases third with
    | none => exact .inl fun f => by simp [flagUpdate, h]
    | some t => ?_
  · exact .inr ⟨_, fun f => by simp only [flagUpdate, h, updateAddFlags]; rfl⟩
  · exact .inr ⟨_, fun f => by simp only [flagUpdate, h, updateAdcFlags]; rfl⟩
  · exact .inr ⟨_, fun f => by simp only [flagUpdate, h, updateSbbFlags]; rfl⟩
  · exact .inr ⟨_, fun f => by simp only [flagUpdate, h, updateSubFlags]; rfl⟩

theorem flagUpdate_congr {op : Operation} (h : fullyReplacesArithmeticFlags op.opcode = true)
    (o : Operands) {f g : BitVec 64} (hb : SameBase f g) :
    flagUpdate op o f = flagUpdate op o g := by
  rcases flagUpdate_replaces h o with hnone | ⟨v, hv⟩
  · rw [hnone, hnone]
  · rw [hv, hv, composeFlags_congr hb]

theorem sameBase_of_flagUpdate {op : Operation}
    (h : fullyReplacesArithmeticFlags op.opcode = true) {o : Operands} {f g : BitVec 64}
    (hu : flagUpdate op o f = some g) : SameBase f g := by
  rcases flagUpdate_replaces h o with hnone | ⟨v, hv⟩
  · rw [hnone] at hu
    cases hu
  · rw [hv] at hu
    obtain rfl := Option.some.inj hu
    exact (composeFlags_and_not f v).symm

/-- The zero flag of an update is that of its source. -/
theorem zero_of_flagUpdate {op : Operation} {source : ZeroFlagSource}
    {values : ValueId → BitVec 64} {f g : BitVec 64}
    (hs : zeroFlagSourceForUpdate op = some source)
    (hu : flagUpdate op (operands values op) f = some g) :
    (flagsOf g).zero = (source.width.truncate (values source.value) == 0) := by
  unfold zeroFlagSourceForUpdate at hs
  split at hs
  · next hop =>
    obtain ⟨v, hv, rfl⟩ := Option.map_eq_some_iff.mp hs
    simp only [flagUpdate, hop, operands, hv, Option.map_some] at hu
    obtain ⟨l, -, hu⟩ := Option.bind_eq_some_iff.mp hu
    obtain ⟨r, -, hu⟩ := Option.bind_eq_some_iff.mp hu
    obtain rfl := Option.some.inj hu
    rw [updateAddFlags, flagsOf_replace]
    rfl
  · next hop =>
    split at hs
    · obtain ⟨v, hv, rfl⟩ := Option.map_eq_some_iff.mp hs
      simp only [flagUpdate, hop, operands, hv, Option.map_some] at hu
      obtain ⟨l, -, hu⟩ := Option.bind_eq_some_iff.mp hu
      obtain ⟨r, -, hu⟩ := Option.bind_eq_some_iff.mp hu
      obtain rfl := Option.some.inj hu
      rw [updateSubFlags, flagsOf_replace]
      rfl
    · cases hs
  · next hop =>
    obtain ⟨v, hv, rfl⟩ := Option.map_eq_some_iff.mp hs
    simp only [flagUpdate, hop, operands, hv, Option.map_some] at hu
    obtain rfl := Option.some.inj hu
    rw [updateLogicFlags, flagsOf_replace]
    rfl
  · cases hs

/-! ## What acceptance gives about the updates -/

/-- An accepted full replacement has its operands. -/
theorem flagUpdate_isSome {block : Block} (h : block.Verified) {i : Nat} {op : Operation}
    (hop : block.operations[i]? = some op)
    (hr : fullyReplacesArithmeticFlags op.opcode = true) (values : ValueId → BitVec 64)
    (f : BitVec 64) : ∃ g, flagUpdate op (operands values op) f = some g := by
  obtain ⟨defined, hcheck, -, -⟩ := h.at_index hop
  simp only [fullyReplacesArithmeticFlags, List.contains_eq_mem, List.mem_cons,
    List.not_mem_nil, or_false, decide_eq_true_eq] at hr
  rcases hr with hr | hr | hr | hr | hr
  all_goals
    simp only [checkOperation, hr, List.append_eq_nil_iff, checkUse_eq_nil] at hcheck
  · obtain ⟨⟨⟨l, hl, -⟩, r, hr', -⟩, t, ht, -⟩ := hcheck
    exact ⟨_, by simp only [flagUpdate, hr, operands, hl, hr', ht]; rfl⟩
  · obtain ⟨⟨⟨⟨l, hl, -⟩, r, hr', -⟩, t, ht, -⟩, -⟩ := hcheck
    exact ⟨_, by simp only [flagUpdate, hr, operands, hl, hr', ht]; rfl⟩
  · obtain ⟨⟨⟨⟨l, hl, -⟩, r, hr', -⟩, t, ht, -⟩, -⟩ := hcheck
    exact ⟨_, by simp only [flagUpdate, hr, operands, hl, hr', ht]; rfl⟩
  · obtain ⟨⟨⟨l, hl, -⟩, r, hr', -⟩, t, ht, -⟩ := hcheck
    exact ⟨_, by simp only [flagUpdate, hr, operands, hl, hr', ht]; rfl⟩
  · obtain ⟨l, hl, -⟩ := hcheck
    exact ⟨_, by simp only [flagUpdate, hr, operands, hl]; rfl⟩

/-- The source of the zero flag is defined before the update. -/
theorem zeroFlagSource_defined {block : Block} (h : block.Verified) {k : Nat} {op : Operation}
    (hop : block.operations[k]? = some op) {source : ZeroFlagSource}
    (hs : zeroFlagSourceForUpdate op = some source) :
    ∃ j < k, ∃ d, block.operations[j]? = some d ∧ d.result = some source.value := by
  obtain ⟨defined, hcheck, -, hdefined⟩ := h.at_index hop
  refine (hdefined source.value).mp ?_
  unfold zeroFlagSourceForUpdate at hs
  split at hs
  · next hu =>
    obtain ⟨v, hv, rfl⟩ := Option.map_eq_some_iff.mp hs
    simp only [checkOperation, hu, List.append_eq_nil_iff, checkUse_eq_nil] at hcheck
    obtain ⟨-, t, ht, hdef⟩ := hcheck
    obtain rfl : v = t := by simpa [hv] using ht
    exact hdef
  · next hu =>
    split at hs
    · obtain ⟨v, hv, rfl⟩ := Option.map_eq_some_iff.mp hs
      simp only [checkOperation, hu, List.append_eq_nil_iff, checkUse_eq_nil] at hcheck
      obtain ⟨-, t, ht, hdef⟩ := hcheck
      obtain rfl : v = t := by simpa [hv] using ht
      exact hdef
    · cases hs
  · next hu =>
    obtain ⟨v, hv, rfl⟩ := Option.map_eq_some_iff.mp hs
    simp only [checkOperation, hu, checkUse_eq_nil] at hcheck
    obtain ⟨t, ht, hdef⟩ := hcheck
    obtain rfl : v = t := by simpa [hv] using ht
    exact hdef
  · cases hs

/-! ## The opcodes in between -/

theorem kind_of_pure {opcode : Opcode} (h : isFlagSinkPure opcode = true) :
    (opcode.kind = .value ∧ opcode ≠ .evaluateCondition) ∨ opcode = .writeGuestReg := by
  revert h
  cases opcode <;> decide

theorem preserves_cases {opcode : Opcode} (h : preservesZeroFlagSource opcode = true) :
    isFlagSinkPure opcode = true ∨ opcode = .evaluateCondition ∨
      opcode = .conditionalMoveGuestReg := by
  simpa [preservesZeroFlagSource, isFlagSinkPure, or_assoc] using h

theorem preserves_of_pure {opcode : Opcode} (h : isFlagSinkPure opcode = true) :
    preservesZeroFlagSource opcode = true := by
  unfold isFlagSinkPure at h
  simp only [preservesZeroFlagSource, h, Bool.true_or]

theorem isAnyFlagUpdate_of_preserves {opcode : Opcode}
    (h : preservesZeroFlagSource opcode = true) : isAnyFlagUpdate opcode = false := by
  revert h
  cases opcode <;> decide

theorem kind_of_replaces {opcode : Opcode} (h : fullyReplacesArithmeticFlags opcode = true) :
    opcode.kind = .flags := by
  revert h
  cases opcode <;> decide

/-- The value of a pure operation does not depend on the flags. -/
theorem valueOf_withFlags {op : Operation} (hne : op.opcode ≠ .evaluateCondition)
    (o : Operands) (g : GuestState) (f : BitVec 64) :
    valueOf op o { g with rflags := f } = valueOf op o g := by
  unfold valueOf
  split <;> first | rfl | contradiction

/-- A pure operation does the same under other flags, and keeps them. -/
theorem step_pure (rt : Runtime M E) {op : Operation} (hp : isFlagSinkPure op.opcode = true)
    (m : Machine M) (f : BitVec 64) :
    (∃ m', step rt op m = .next m' ∧ step rt op (withFlags m f) = .next (withFlags m' f) ∧
        m'.guest.rflags = m.guest.rflags) ∨
      (step rt op m = .done .stuck ∧ step rt op (withFlags m f) = .done .stuck) := by
  rcases kind_of_pure hp with ⟨hk, hne⟩ | hop
  · simp only [step, hk, withFlags, valueOf_withFlags hne]
    cases op.result with
    | none => exact .inr ⟨rfl, rfl⟩
    | some r =>
      cases valueOf op (operands m.values op) m.guest with
      | none => exact .inr ⟨rfl, rfl⟩
      | some v => exact .inl ⟨_, rfl, rfl, rfl⟩
  · simp only [step, hop, Opcode.kind, guestUpdate, withFlags]
    cases op.guestRegister with
    | none => exact .inr ⟨rfl, rfl⟩
    | some r =>
      cases (operands m.values op).lhs with
      | none => exact .inr ⟨rfl, rfl⟩
      | some v => exact .inl ⟨_, rfl, rfl, rfl⟩

/-- A condition or a conditional move is its step with the condition answered from RFLAGS. -/
theorem step_condition (rt : Runtime M E) {op : Operation} {c : Condition}
    (hop : op.opcode = .evaluateCondition ∨ op.opcode = .conditionalMoveGuestReg)
    (hc : op.condition = some c) (m : Machine M) :
    step rt op m = conditionStep op (evalCondition c m.guest.rflags) m := by
  rcases hop with hop | hop
  · simp only [step, conditionStep, hop, Opcode.kind, valueOf, hc, Option.map_some]
    cases op.result <;> rfl
  · simp only [step, conditionStep, hop, Opcode.kind, guestUpdate, hc]
    cases op.guestRegister with
    | none => rfl
    | some r =>
      cases conditionalMoveSource op (operands m.values op) m.guest with
      | none => simp
      | some source =>
        cases hm : conditionalMove op.width (evalCondition c m.guest.rflags) (m.guest.regs r)
            source <;> simp [hm]

theorem conditionStep_withFlags (op : Operation) (taken : Bool) (m : Machine M)
    (f : BitVec 64) :
    (∃ m', (conditionStep op taken m : Effect M E) = .next m' ∧
        (conditionStep op taken (withFlags m f) : Effect M E) = .next (withFlags m' f) ∧
        m'.guest.rflags = m.guest.rflags) ∨
      ((conditionStep op taken m : Effect M E) = .done .stuck ∧
        (conditionStep op taken (withFlags m f) : Effect M E) = .done .stuck) := by
  unfold conditionStep
  split
  · cases op.result with
    | none => exact .inr ⟨rfl, rfl⟩
    | some r => exact .inl ⟨_, rfl, rfl, rfl⟩
  · have hsource : conditionalMoveSource op (operands (withFlags m f).values op)
        (withFlags m f).guest = conditionalMoveSource op (operands m.values op) m.guest := rfl
    rw [hsource]
    cases op.guestRegister with
    | none => exact .inr ⟨rfl, rfl⟩
    | some r =>
      cases conditionalMoveSource op (operands m.values op) m.guest with
      | none => exact .inr ⟨rfl, rfl⟩
      | some source =>
        have hregs : (withFlags m f).guest.regs r = m.guest.regs r := rfl
        dsimp only
        rw [hregs]
        cases conditionalMove op.width taken (m.guest.regs r) source with
        | none => exact .inr ⟨rfl, rfl⟩
        | some v => exact .inl ⟨_, rfl, rfl, rfl⟩

/-- The operations that keep the source of the zero flag keep the flags. -/
theorem rflags_of_preserves {rt : Runtime M E} {op : Operation} {a b : Machine M}
    (hp : preservesZeroFlagSource op.opcode = true) (hs : Steps rt op a b) :
    b.guest.rflags = a.guest.rflags := by
  have hkind : op.opcode.kind = .value ∨ op.opcode = .writeGuestReg ∨
      op.opcode = .conditionalMoveGuestReg := by
    rcases preserves_cases hp with h | h | h
    · rcases kind_of_pure h with ⟨hk, -⟩ | hw
      · exact .inl hk
      · exact .inr (.inl hw)
    · exact .inl (by rw [h]; rfl)
    · exact .inr (.inr h)
  rcases hkind with hk' | hop | hop
  · cases hs <;> simp_all
  · cases hs <;> simp_all [Opcode.kind]
    next hg =>
    simp only [guestUpdate, hop] at hg
    obtain ⟨r, -, hg⟩ := Option.bind_eq_some_iff.mp hg
    obtain ⟨v, -, hg⟩ := Option.bind_eq_some_iff.mp hg
    obtain rfl := Option.some.inj hg
    rfl
  · cases hs <;> simp_all [Opcode.kind]
    next hg =>
    simp only [guestUpdate, hop] at hg
    obtain ⟨r, -, hg⟩ := Option.bind_eq_some_iff.mp hg
    obtain ⟨c, -, hg⟩ := Option.bind_eq_some_iff.mp hg
    obtain ⟨source, -, hg⟩ := Option.bind_eq_some_iff.mp hg
    obtain ⟨v, -, hg⟩ := Option.bind_eq_some_iff.mp hg
    obtain rfl := Option.some.inj hg
    rfl

/-! ## Facts of the run that the rewrites rely on -/

/-- What an update establishes between a value and the flags lasts while the operations keep
the flags, as the value is not defined again. -/
theorem holds_since {block : Block} (h : block.Verified) {rt : Runtime M E}
    {start m : Machine M} {i k : Nat} {update : Operation} {v : ValueId}
    {P : BitVec 64 → BitVec 64 → Prop} (hi : i ≤ block.operations.length)
    (hrun : runTo rt (block.operations.take i) start = some m)
    (hdefined : ∃ j < k, ∃ d, block.operations[j]? = some d ∧ d.result = some v)
    (hk : block.operations[k]? = some update) (hki : k < i)
    (hupdate : ∀ a b, Steps rt update a b → P (b.values v) b.guest.rflags)
    (hkeep : ∀ p d, k < p → p < i → block.operations[p]? = some d →
      preservesZeroFlagSource d.opcode = true) : P (m.values v) m.guest.rflags := by
  obtain ⟨j, hjk, d, hd, hv⟩ := hdefined
  refine runTo_induction (P := fun q machine => k < q → q ≤ i →
    P (machine.values v) machine.guest.rflags) (fun hlt => by omega) ?_ hi hrun hki le_rfl
  intro q op a b hop _ hs ih hkq hqi
  rcases Nat.lt_succ_iff_lt_or_eq.mp hkq with hlt | rfl
  · have hne : op.result ≠ some v := fun hr => by
      have := h.unique hd hop hv hr
      omega
    rw [hs.values_of_ne hne, rflags_of_preserves (hkeep q op hlt (by omega) hop) hs]
    exact ih hlt (by omega)
  · obtain rfl : op = update := by simpa [hk] using hop.symm
    exact hupdate a b hs

/-- `zeroFlagSourceAt` finds the last update, behind operations that keep the flags. -/
theorem zeroFlagSourceAt_spec {block : Block} {source : ZeroFlagSource} : ∀ {i : Nat},
    zeroFlagSourceAt block i = some source →
    ∃ k update, k < i ∧ block.operations[k]? = some update ∧
      zeroFlagSourceForUpdate update = some source ∧ ∀ p d, k < p → p < i →
        block.operations[p]? = some d → preservesZeroFlagSource d.opcode = true
  | 0, h => by cases h
  | i + 1, h => by
    simp only [zeroFlagSourceAt] at h
    split at h
    · next candidate hc =>
      split at h
      · exact ⟨i, candidate, i.lt_succ_self, hc, h, fun p d hlt hle => by omega⟩
      · split at h
        · next hp =>
          obtain ⟨k, update, hk, hu, hs, hkeep⟩ := zeroFlagSourceAt_spec h
          refine ⟨k, update, by omega, hu, hs, fun p d hkp hpi hd => ?_⟩
          rcases Nat.lt_succ_iff_lt_or_eq.mp hpi with hlt | rfl
          · exact hkeep p d hkp hlt hd
          · obtain rfl : candidate = d := by simpa [hc] using hd
            exact hp
        · cases h
    · cases h

theorem zeroFlagSourceAt_succ {block : Block} {i : Nat} {op : Operation}
    (hop : block.operations[i]? = some op) (hp : preservesZeroFlagSource op.opcode = true) :
    zeroFlagSourceAt block (i + 1) = zeroFlagSourceAt block i := by
  simp [zeroFlagSourceAt, hop, isAnyFlagUpdate_of_preserves hp, hp]

/-- The value that stands for the zero flag agrees with it. -/
theorem zeroFlagSourceAt_zero {block : Block} (h : block.Verified) {rt : Runtime M E}
    {start m : Machine M} {i : Nat} (hi : i ≤ block.operations.length)
    (hrun : runTo rt (block.operations.take i) start = some m) {source : ZeroFlagSource}
    (hs : zeroFlagSourceAt block i = some source) :
    (flagsOf m.guest.rflags).zero =
      (source.width.truncate (m.values source.value) == 0) := by
  obtain ⟨k, update, hk, hu, hsource, hkeep⟩ := zeroFlagSourceAt_spec hs
  refine holds_since (P := fun x f => (flagsOf f).zero = (source.width.truncate x == 0)) h hi
    hrun (zeroFlagSource_defined h hu hsource) hu hk ?_ hkeep
  intro a b hstep
  cases hstep with
  | flags hkind hf => exact zero_of_flagUpdate hsource hf
  | _ hkind =>
    unfold zeroFlagSourceForUpdate at hsource
    split at hsource <;> simp_all [Opcode.kind]

/-- A fused condition has the outcome of the condition on RFLAGS. -/
theorem fusedCondition_eq {block : Block} (h : block.Verified) {rt : Runtime M E}
    {start m : Machine M} {i : Nat} (hi : i ≤ block.operations.length)
    (hrun : runTo rt (block.operations.take i) start = some m) {source : ZeroFlagSource}
    (hs : zeroFlagSourceAt block i = some source) {c : Condition}
    (hc : c = .equal ∨ c = .notEqual) :
    fusedCondition source (some c) m.values = evalCondition c m.guest.rflags := by
  have hzero := zeroFlagSourceAt_zero h hi hrun hs
  rcases hc with rfl | rfl
  · simp [fusedCondition, evalCondition, conditionValue, hzero]
  · simp only [fusedCondition, evalCondition, conditionValue, hzero]
    simp [bne]

/-! ## The place of a sunk update -/

theorem drop_eq_cons {block : Block} {i : Nat} {op : Operation}
    (hop : block.operations[i]? = some op) :
    block.operations.drop i = op :: block.operations.drop (i + 1) := by
  obtain ⟨hlt, rfl⟩ := List.getElem?_eq_some_iff.mp hop
  exact List.drop_eq_getElem_cons hlt

/-- Once the load is found it stays the target. -/
theorem target_of_sinkTargetFrom {s t : Nat} : ∀ {ops : List Operation} {i : Nat},
    sinkTargetFrom (some s) i ops = some t → t = s
  | [], _, h => by cases h
  | op :: ops, i, h => by
    simp only [sinkTargetFrom] at h
    split at h
    · exact target_of_sinkTargetFrom h
    · split at h
      · exact (Option.some.inj h).symm
      · cases h

/-- Up to the load the operations are pure. -/
theorem pure_of_sinkTargetFrom {t : Nat} : ∀ {ops : List Operation} {i : Nat},
    sinkTargetFrom none i ops = some t → ∀ q d, i + q < t → ops[q]? = some d →
      isFlagSinkPure d.opcode = true
  | [], _, h, _, _, _, _ => by cases h
  | op :: ops, i, h, q, d, hq, hd => by
    simp only [sinkTargetFrom] at h
    split at h
    · next hp =>
      cases q with
      | zero =>
        obtain rfl : op = d := by simpa using hd
        exact hp
      | succ q => exact pure_of_sinkTargetFrom h q d (by omega) (by simpa using hd)
    · split at h
      · -- The load itself is the target, and nothing stands before it.
        have := target_of_sinkTargetFrom h
        omega
      · cases h

/-- The update of a sunk load, and what stands between the two. -/
theorem sunkUpdate_spec {block : Block} {i : Nat} {op update : Operation}
    (h : sunkUpdate block i op = some update) :
    ∃ k < i, block.operations[k]? = some update ∧ update.opcode = .updateLogicFlags ∧
      ∀ p d, k < p → p < i → block.operations[p]? = some d →
        preservesZeroFlagSource d.opcode = true := by
  unfold sunkUpdate at h
  split at h
  · obtain ⟨k, hk, hu⟩ := Option.bind_eq_some_iff.mp h
    have hlt : k < i := List.mem_range.mp (List.mem_of_find?_eq_some hk)
    have htarget : logicFlagSinkTarget block k = some i := by simpa using List.find?_some hk
    simp only [logicFlagSinkTarget, hu] at htarget
    split at htarget
    · next hop =>
      refine ⟨k, hlt, hu, hop, fun p d hkp hpi hd => preserves_of_pure ?_⟩
      refine pure_of_sinkTargetFrom htarget (p - (k + 1)) d (by omega) ?_
      rw [List.getElem?_drop, ← hd]
      congr 1
      omega
    · cases htarget
  · cases h

theorem exists_sunkUpdate {block : Block} {i k : Nat} {op : Operation}
    (hedge : hasInternalSelfEdge block = true) (hload : op.opcode = .loadGuest ∧ op.width = .i8)
    (hk : k < i) (htarget : logicFlagSinkTarget block k = some i) :
    ∃ update, sunkUpdate block i op = some update := by
  have hfind : (sunkLogicFlagUpdateAt block i).isSome = true :=
    List.find?_isSome.mpr ⟨k, List.mem_range.mpr hk, by simpa using htarget⟩
  obtain ⟨k', hk'⟩ := Option.isSome_iff_exists.mp hfind
  have htarget' : logicFlagSinkTarget block k' = some i := by simpa using List.find?_some hk'
  cases hu : block.operations[k']? with
  | none => simp [logicFlagSinkTarget, hu] at htarget'
  | some update => exact ⟨update, by simp [sunkUpdate, hedge, hload, hk', hu]⟩

/-- At a sunk load the update, made there, gives the flags of the block. -/
theorem sunkUpdate_flags {block : Block} (h : block.Verified) {rt : Runtime M E}
    {start m : Machine M} {i : Nat} {op update : Operation}
    (hi : i ≤ block.operations.length)
    (hrun : runTo rt (block.operations.take i) start = some m)
    (hu : sunkUpdate block i op = some update) {f : BitVec 64}
    (hf : SameBase f m.guest.rflags) :
    flagUpdate update (operands m.values update) f = some m.guest.rflags := by
  obtain ⟨k, hki, hk, hop, hkeep⟩ := sunkUpdate_spec hu
  have hreplaces : fullyReplacesArithmeticFlags update.opcode = true := by rw [hop]; rfl
  have hsource (v : ValueId) (hv : update.lhs = some v) :
      zeroFlagSourceForUpdate update = some ⟨v, update.width⟩ := by
    simp [zeroFlagSourceForUpdate, hop, hv]
  obtain ⟨defined, hcheck, -, -⟩ := h.at_index hk
  simp only [checkOperation, hop, checkUse_eq_nil] at hcheck
  obtain ⟨v, hv, -⟩ := hcheck
  have hflags (values : ValueId → BitVec 64) (g : BitVec 64) :
      flagUpdate update (operands values update) g =
        some (updateLogicFlags update.width g (values v)) := by
    simp only [flagUpdate, hop, operands, hv]
    rfl
  obtain ⟨g, hg⟩ : ∃ g, m.guest.rflags = updateLogicFlags update.width g (m.values v) := by
    refine holds_since (P := fun x r => ∃ g, r = updateLogicFlags update.width g x) h hi hrun
      (zeroFlagSource_defined h hk (hsource v hv)) hk hki ?_ hkeep
    intro a b hstep
    cases hstep with
    | flags hkind hf' =>
      rw [hflags] at hf'
      exact ⟨_, (Option.some.inj hf').symm⟩
    | _ hkind => simp [hop, Opcode.kind] at hkind
  have hbase : SameBase f g := hf.trans (hg ▸ composeFlags_and_not g _)
  rw [flagUpdate_congr hreplaces _ hbase, hflags, hg]

/-! ## The two runs side by side -/

/-- The arithmetic flags are not observed before an operation replaces them : they belong to
an update that was left out, to one that is on its way to its load, or to one whose load has
gone by. -/
inductive Covered (block : Block) (i : Nat) : Prop
  | replaced (h : flagsReplacedBy (hasInternalSelfEdge block) (block.operations.drop i) = true)
      (hsource : hasInternalSelfEdge block = true → (zeroFlagSourceAt block i).isSome = true)
  | sinking {k t : Nat} (hedge : hasInternalSelfEdge block = true) (hk : k < i)
      (htarget : logicFlagSinkTarget block k = some t)
      (h : sinkTargetFrom none i (block.operations.drop i) = some t)
  | sunk {t : Nat} (h : sinkTargetFrom (some t) i (block.operations.drop i) = some t)

/-- What an operation under stale flags can be. -/
inductive CoveredBy (block : Block) (i : Nat) (op : Operation) : Prop
  | pure (hp : isFlagSinkPure op.opcode = true) (hnext : Covered block (i + 1))
  | replaces (hr : fullyReplacesArithmeticFlags op.opcode = true)
  | fused {source : ZeroFlagSource} (hs : fusedSource block i op = some source)
      (hnext : Covered block (i + 1))
  | load {update : Operation} (hop : op.opcode = .loadGuest)
      (hu : sunkUpdate block i op = some update) (hnext : Covered block (i + 1))

theorem preserves_of_consumes {op : Operation} (h : consumesOnlyZeroFlag op = true) :
    preservesZeroFlagSource op.opcode = true := by
  simp only [consumesOnlyZeroFlag, Bool.and_eq_true, Bool.or_eq_true, beq_iff_eq] at h
  rcases h.1 with hop | hop <;> rw [hop] <;> rfl

theorem Covered.cases {block : Block} {i : Nat} (h : Covered block i) {op : Operation}
    (hop : block.operations[i]? = some op) : CoveredBy block i op := by
  cases h with
  | replaced h hsource =>
    rw [drop_eq_cons hop, flagsReplacedBy] at h
    split at h
    · next hr => exact .replaces hr
    · split at h
      · next hc =>
        simp only [Bool.and_eq_true] at hc
        obtain ⟨source, hs⟩ := Option.isSome_iff_exists.mp (hsource hc.1)
        refine .fused (by simp [fusedSource, hc, hs]; rfl) (.replaced h fun _ => ?_)
        rw [zeroFlagSourceAt_succ hop (preserves_of_consumes hc.2), hs]
        rfl
      · split at h
        · next hp =>
          refine .pure hp (.replaced h fun hedge => ?_)
          rw [zeroFlagSourceAt_succ hop (preserves_of_pure hp)]
          exact hsource hedge
        · cases h
  | sinking hedge hk htarget h =>
    rw [drop_eq_cons hop, sinkTargetFrom] at h
    split at h
    · next hp => exact .pure hp (.sinking hedge (by omega) htarget h)
    · split at h
      · next hload =>
        obtain rfl := target_of_sinkTargetFrom h
        obtain ⟨update, hu⟩ := exists_sunkUpdate hedge hload hk htarget
        exact .load hload.1 hu (.sunk h)
      · cases h
  | sunk h =>
    rw [drop_eq_cons hop, sinkTargetFrom] at h
    split at h
    · next hp => exact .pure hp (.sunk h)
    · split at h
      · next hr => exact .replaces hr
      · cases h

/-- Stale flags stay covered until they are replaced. -/
theorem Covered.next {block : Block} {i : Nat} (h : Covered block i) {op : Operation}
    (hop : block.operations[i]? = some op)
    (hkeeps : fullyReplacesArithmeticFlags op.opcode = false) : Covered block (i + 1) := by
  cases h.cases hop with
  | pure hp hnext => exact hnext
  | fused hs hnext => exact hnext
  | load hload hu hnext => exact hnext
  | replaces hr => exact absurd hr (by simp [hkeeps])

/-- The state of the rewritten block beside that of the block. -/
def FlagMatch (block : Block) (i : Nat) (m n : Machine M) : Prop :=
  ∃ f, n = withFlags m f ∧ SameBase f m.guest.rflags ∧
    (f = m.guest.rflags ∨ Covered block i)

/-- Both go on with matching states, or both end the same way. -/
inductive SameStep (block : Block) (i : Nat) : Effect M E → Effect M E → Prop
  | next {m n : Machine M} (h : FlagMatch block i m n) : SameStep block i (.next m) (.next n)
  | done (outcome : Outcome M E) : SameStep block i (.done outcome) (.done outcome)

theorem FlagMatch.refl {block : Block} {i : Nat} (m : Machine M) : FlagMatch block i m m :=
  ⟨m.guest.rflags, rfl, rfl, .inl rfl⟩

theorem SameStep.refl {block : Block} {i : Nat} (effect : Effect M E) :
    SameStep block i effect effect := by
  cases effect with
  | next m => exact .next (.refl m)
  | done outcome => exact .done outcome

section

variable {rt : Runtime M E} {block : Block} {fast : Nat → Bool} {start m : Machine M} {i : Nat}
  {op : Operation} {f : BitVec 64}

/-- An update that is left out where it stands. -/
theorem sameStep_leftOut (h : block.Verified) (hop : block.operations[i]? = some op)
    (hr : fullyReplacesArithmeticFlags op.opcode = true) (hb : SameBase f m.guest.rflags)
    (hnext : Covered block (i + 1)) :
    SameStep block (i + 1) (step rt op m) (.next (withFlags m f)) := by
  obtain ⟨g, hg⟩ := flagUpdate_isSome h hop hr m.values m.guest.rflags
  rw [step_flags (kind_of_replaces hr) hg]
  exact .next ⟨f, rfl, hb.trans (sameBase_of_flagUpdate hr hg), .inr hnext⟩

theorem covered_of_isDeadFlagUpdate (hop : block.operations[i]? = some op)
    (hdead : isDeadFlagUpdate block i (hasInternalSelfEdge block) = true) :
    fullyReplacesArithmeticFlags op.opcode = true ∧ Covered block (i + 1) := by
  simp only [isDeadFlagUpdate, hop, Bool.and_eq_true, Bool.or_eq_true, Bool.not_eq_true'] at hdead
  obtain ⟨⟨hr, hsource⟩, hreplaced⟩ := hdead
  refine ⟨hr, .replaced hreplaced fun hedge => ?_⟩
  have hany : isAnyFlagUpdate op.opcode = true := by simp [isAnyFlagUpdate, kind_of_replaces hr]
  rcases hsource with hno | hsource
  · simp [hedge] at hno
  · simpa [zeroFlagSourceAt, hop, hany] using hsource

theorem covered_of_logicFlagSinkTarget (hop : block.operations[i]? = some op)
    (hedge : hasInternalSelfEdge block = true) {t : Nat}
    (ht : logicFlagSinkTarget block i = some t) :
    fullyReplacesArithmeticFlags op.opcode = true ∧ Covered block (i + 1) := by
  have hfrom := ht
  simp only [logicFlagSinkTarget, hop] at hfrom
  split at hfrom
  · next hlogic => exact ⟨by rw [hlogic]; rfl, .sinking hedge i.lt_succ_self ht hfrom⟩
  · cases hfrom

/-- A condition that is answered from a value. -/
theorem sameStep_fused (h : block.Verified) (hop : block.operations[i]? = some op)
    (hrun : runTo rt (block.operations.take i) start = some m) (hb : SameBase f m.guest.rflags)
    (hcov : f = m.guest.rflags ∨ Covered block i) {source : ZeroFlagSource}
    (hs : fusedSource block i op = some source) :
    SameStep block (i + 1) (step rt op m)
      (conditionStep op (fusedCondition source op.condition (withFlags m f).values)
        (withFlags m f)) := by
  unfold fusedSource at hs
  split at hs
  · next hc =>
    simp only [consumesOnlyZeroFlag, Bool.and_eq_true, Bool.or_eq_true, beq_iff_eq] at hc
    obtain ⟨-, hopcode, hcond⟩ := hc
    obtain ⟨c, hc, hor⟩ : ∃ c, op.condition = some c ∧ (c = .equal ∨ c = .notEqual) := by
      rcases hcond with hc | hc
      · exact ⟨_, hc, .inl rfl⟩
      · exact ⟨_, hc, .inr rfl⟩
    have hle := (List.getElem?_eq_some_iff.mp hop).1.le
    have htaken : fusedCondition source op.condition (withFlags m f).values =
        evalCondition c m.guest.rflags := by
      rw [hc]
      exact fusedCondition_eq h hle hrun hs hor
    have hnext : f = m.guest.rflags ∨ Covered block (i + 1) := by
      refine hcov.imp_right fun hcov => hcov.next hop ?_
      rcases hopcode with ho | ho <;> rw [ho] <;> rfl
    rw [htaken, step_condition rt hopcode hc]
    rcases conditionStep_withFlags (E := E) op (evalCondition c m.guest.rflags) m f with
      ⟨m', h1, h2, hflags⟩ | ⟨h1, h2⟩
    · rw [h1, h2]
      exact .next ⟨f, rfl, hflags ▸ hb, hnext.imp_left fun he => he.trans hflags.symm⟩
    · rw [h1, h2]
      exact .done _
  · cases hs

/-- A load changes no flags. -/
theorem step_load (rt : Runtime M E) (m : Machine M) (f : BitVec 64)
    (hload : op.opcode = .loadGuest) :
    (∃ m', step rt op m = .next m' ∧ step rt op (withFlags m f) = .next (withFlags m' f) ∧
        m'.guest.rflags = m.guest.rflags) ∨
      ∃ o o', step rt op m = .done o ∧ step rt op (withFlags m f) = .done o' := by
  simp only [step, hload, Opcode.kind, withFlags]
  cases op.result with
  | none => exact .inr ⟨_, _, rfl, rfl⟩
  | some r =>
    cases (operands m.values op).lhs with
    | none => exact .inr ⟨_, _, rfl, rfl⟩
    | some address =>
      rcases hread : rt.load op.width address m.memory with ⟨_ | v, memory⟩
      · simp only [hread]
        exact .inr ⟨_, _, rfl, rfl⟩
      · simp only [hread]
        exact .inl ⟨_, rfl, rfl, rfl⟩

/-- A load behind which an update was moved. -/
theorem sameStep_sunk (h : block.Verified) (hop : block.operations[i]? = some op)
    (hrun : runTo rt (block.operations.take i) start = some m) (hb : SameBase f m.guest.rflags)
    (hcov : f = m.guest.rflags ∨ Covered block i) {update : Operation}
    (hload : op.opcode = .loadGuest) (hu : sunkUpdate block i op = some update) :
    SameStep block (i + 1) (step rt op m)
      (loadStep rt (fast i) update op (withFlags m f)) := by
  have hle := (List.getElem?_eq_some_iff.mp hop).1.le
  have hflags : flagUpdate update (operands (withFlags m f).values update)
      (withFlags m f).guest.rflags = some m.guest.rflags := sunkUpdate_flags h hle hrun hu hb
  have hsame : withFlags (withFlags m f) m.guest.rflags = m := rfl
  have hslow : SameStep block (i + 1) (step rt op m) (step rt op m) := .refl _
  have hnext : f = m.guest.rflags ∨ Covered block (i + 1) :=
    hcov.imp_right fun hcov => hcov.next hop (by rw [hload]; rfl)
  simp only [loadStep, hflags, hsame]
  rcases step_load rt m f hload with ⟨m', h1, h2, hkeep⟩ | ⟨o, o', h1, h2⟩
  · rw [h2]
    dsimp only
    split
    · rw [h1]
      exact .next ⟨f, rfl, hkeep ▸ hb, hnext.imp_left fun he => he.trans hkeep.symm⟩
    · exact hslow
  · rw [h2]
    exact hslow

/-- An operation that is emitted as it is. -/
theorem sameStep_emitted (hop : block.operations[i]? = some op) (hb : SameBase f m.guest.rflags)
    (hcov : f = m.guest.rflags ∨ Covered block i) (hs : fusedSource block i op = none)
    (hu : sunkUpdate block i op = none) :
    SameStep block (i + 1) (step rt op m) (step rt op (withFlags m f)) := by
  rcases hcov with rfl | hcov
  · exact .refl _
  cases hcov.cases hop with
  | pure hp hnext =>
    rcases step_pure rt hp m f with ⟨m', h1, h2, hflags⟩ | ⟨h1, h2⟩
    · rw [h1, h2]
      exact .next ⟨f, rfl, hflags ▸ hb, .inr hnext⟩
    · rw [h1, h2]
      exact .done _
  | replaces hr =>
    -- The flags are whole again : both updates start from the same base.
    have hsame : step rt op (withFlags m f) = step rt op m := by
      simp only [step, kind_of_replaces hr]
      rw [show (withFlags m f).values = m.values from rfl,
        show (withFlags m f).guest.rflags = f from rfl, flagUpdate_congr hr _ hb]
      rfl
    rw [hsame]
    exact .refl _
  | fused hs' hnext => simp [hs] at hs'
  | load hload hu' hnext => simp [hu] at hu'

/-- One operation of both runs. -/
theorem rewrittenStep_sameStep (fast : Nat → Bool) (h : block.Verified)
    (hop : block.operations[i]? = some op)
    (hrun : runTo rt (block.operations.take i) start = some m) {n : Machine M}
    (hm : FlagMatch block i m n) :
    SameStep block (i + 1) (step rt op m) (rewrittenStep rt block fast i op n) := by
  obtain ⟨f, rfl, hb, hcov⟩ := hm
  unfold rewrittenStep
  split
  · next hdead =>
    obtain ⟨hr, hnext⟩ := covered_of_isDeadFlagUpdate hop hdead
    exact sameStep_leftOut h hop hr hb hnext
  · split
    · next hsink =>
      rw [Bool.and_eq_true] at hsink
      obtain ⟨t, ht⟩ := Option.isSome_iff_exists.mp hsink.2
      obtain ⟨hr, hnext⟩ := covered_of_logicFlagSinkTarget hop hsink.1 ht
      exact sameStep_leftOut h hop hr hb hnext
    · split
      · next source _ hs => exact sameStep_fused h hop hrun hb hcov hs
      · next update hs hu =>
        have hload : op.opcode = .loadGuest := by
          unfold sunkUpdate at hu
          split at hu
          · simp_all
          · cases hu
        exact sameStep_sunk h hop hrun hb hcov hload hu
      · next hs hu => exact sameStep_emitted hop hb hcov hs hu

/-! ## Whole blocks -/

theorem runTo_rewrittenTo (rt : Runtime M E) (fast : Nat → Bool) (start : Machine M)
    (h : block.Verified) : ∀ {i : Nat}, i ≤ block.operations.length →
    Option.Rel (FlagMatch block i) (runTo rt (block.operations.take i) start)
      (rewrittenTo rt block fast start i)
  | 0, _ => .some (.refl start)
  | i + 1, hle => by
    have hop : block.operations[i]? = some block.operations[i] := List.getElem?_eq_getElem hle
    have ih := runTo_rewrittenTo (i := i) rt fast start h (Nat.le_of_succ_le hle)
    simp only [rewrittenTo, hop]
    cases hrun : runTo rt (block.operations.take i) start with
    | none =>
      rw [hrun] at ih
      cases hto : rewrittenTo rt block fast start i with
      | none => rw [runTo_take_succ_none hrun]; exact .none
      | some n => rw [hto] at ih; cases ih
    | some m =>
      rw [hrun] at ih
      rw [runTo_take_succ hop hrun]
      cases hto : rewrittenTo rt block fast start i with
      | none => rw [hto] at ih; cases ih
      | some n =>
        rw [hto] at ih
        cases ih with
        | some hm =>
          have hstep := rewrittenStep_sameStep fast h hop hrun hm
          dsimp only
          generalize step rt _ m = e, rewrittenStep rt block fast i _ n = e' at hstep
          cases hstep with
          | next hm' => exact .some hm'
          | done outcome => exact .none

theorem rewrittenRun_drop (h : block.Verified) : ∀ {rest : List Operation} {i : Nat}
    {m n : Machine M}, block.operations.drop i = rest →
    runTo rt (block.operations.take i) start = some m → FlagMatch block i m n →
    rewrittenRun rt block fast i rest n = Rosa.run rt rest m
  | [], _, _, _, _, _, _ => rfl
  | op :: rest, i, m, n, hdrop, hrun, hm => by
    have hop : block.operations[i]? = some op := by
      rw [← List.head?_drop, hdrop]
      rfl
    have hrest : block.operations.drop (i + 1) = rest := by
      rw [drop_eq_cons hop] at hdrop
      exact (List.cons.inj hdrop).2
    have hstep := rewrittenStep_sameStep fast h hop hrun hm
    have hsucc := runTo_take_succ hop hrun
    simp only [rewrittenRun, Rosa.run]
    generalize step rt op m = e, rewrittenStep rt block fast i op n = e' at hstep hsucc
    cases hstep with
    | next hm' => exact rewrittenRun_drop h hrest hsucc hm'
    | done outcome => rfl

end

/-- The operations that see RFLAGS : helpers, exits, stores that may fault, and the updates
that keep some of the arithmetic flags. -/
def observesFlags (op : Operation) : Bool :=
  match op.opcode.kind with
  | .helper | .exit | .store => true
  | .flags => !fullyReplacesArithmeticFlags op.opcode
  | _ => false

/-- The operations with a condition. -/
def evaluatesCondition (op : Operation) : Bool :=
  op.opcode == .evaluateCondition || op.opcode == .conditionalMoveGuestReg ||
    op.opcode == .exitBlock

/-- The outcome of a condition in the rewritten block. -/
def answeredCondition (block : Block) (i : Nat) (op : Operation) (c : Condition)
    (m : Machine M) : Bool :=
  match fusedSource block i op with
  | some source => fusedCondition source op.condition m.values
  | none => evalCondition c m.guest.rflags

/-- Before `op` the two runs differ at most in flags that nobody sees. -/
structure ObservedAlike (block : Block) (i : Nat) (op : Operation) (m n : Machine M) : Prop where
  others : n = withFlags m n.guest.rflags
  flags : observesFlags op = true → n.guest.rflags = m.guest.rflags
  condition : ∀ c, op.condition = some c → evaluatesCondition op = true →
    answeredCondition block i op c n = evalCondition c m.guest.rflags

section

variable {rt : Runtime M E} {block : Block} {start m n : Machine M} {i : Nat} {op : Operation}

theorem FlagMatch.flags (hm : FlagMatch block i m n) (hop : block.operations[i]? = some op)
    (hobserves : observesFlags op = true) : n.guest.rflags = m.guest.rflags := by
  obtain ⟨f, rfl, -, rfl | hcov⟩ := hm
  · rfl
  cases hcov.cases hop with
  | pure hp hnext =>
    rcases kind_of_pure hp with ⟨hk, -⟩ | hw
    · simp [observesFlags, hk] at hobserves
    · simp [observesFlags, hw, Opcode.kind] at hobserves
  | replaces hr => simp [observesFlags, kind_of_replaces hr, hr] at hobserves
  | fused hs hnext =>
    unfold fusedSource at hs
    split at hs
    · next hc =>
      simp only [consumesOnlyZeroFlag, Bool.and_eq_true, Bool.or_eq_true, beq_iff_eq] at hc
      rcases hc.2.1 with ho | ho <;> simp [observesFlags, ho, Opcode.kind] at hobserves
    · cases hs
  | load hload hu hnext => simp [observesFlags, hload, Opcode.kind] at hobserves

theorem FlagMatch.condition (h : block.Verified) (hm : FlagMatch block i m n)
    (hop : block.operations[i]? = some op)
    (hrun : runTo rt (block.operations.take i) start = some m) {c : Condition}
    (hc : op.condition = some c) (he : evaluatesCondition op = true) :
    answeredCondition block i op c n = evalCondition c m.guest.rflags := by
  have hle := (List.getElem?_eq_some_iff.mp hop).1.le
  obtain ⟨f, rfl, -, hcov⟩ := hm
  unfold answeredCondition
  split
  · next source hs =>
    unfold fusedSource at hs
    split at hs
    · next hconsumes =>
      simp only [consumesOnlyZeroFlag, Bool.and_eq_true, Bool.or_eq_true, beq_iff_eq, hc,
        Option.some.injEq] at hconsumes
      rw [hc]
      exact fusedCondition_eq h hle hrun hs hconsumes.2.2
    · cases hs
  · next hs =>
    rcases hcov with rfl | hcov
    · rfl
    simp only [evaluatesCondition, Bool.or_eq_true, beq_iff_eq] at he
    cases hcov.cases hop with
    | pure hp hnext =>
      rcases he with (ho | ho) | ho <;> rw [ho] at hp <;> cases hp
    | replaces hr =>
      rcases he with (ho | ho) | ho <;> rw [ho] at hr <;> cases hr
    | fused hs' hnext => simp [hs] at hs'
    | load hload hu hnext =>
      rcases he with (ho | ho) | ho <;> rw [ho] at hload <;> cases hload

end

/-- Elimination, fusion and sinking leave the outcome of every accepted block, and at every
operation they leave the conditions and all flags that are observed. -/
theorem rewrittenRun_observedAlike (rt : Runtime M E) (block : Block) (h : block.Verified)
    (fast : Nat → Bool) (start : Machine M) :
    rewrittenRun rt block fast 0 block.operations start = Rosa.run rt block.operations start ∧
      ∀ i op, block.operations[i]? = some op →
        Option.Rel (ObservedAlike block i op) (runTo rt (block.operations.take i) start)
          (rewrittenTo rt block fast start i) := by
  refine ⟨rewrittenRun_drop h rfl rfl (.refl start), fun i op hop => ?_⟩
  have hle := (List.getElem?_eq_some_iff.mp hop).1.le
  have hrel := runTo_rewrittenTo rt fast start h hle
  generalize rewrittenTo rt block fast start i = reached at hrel
  cases hrun : runTo rt (block.operations.take i) start with
  | none =>
    rw [hrun] at hrel
    cases hrel
    exact .none
  | some m =>
    rw [hrun] at hrel
    cases hrel with
    | some hm =>
      refine .some ⟨?_, hm.flags hop, fun c hc he => hm.condition h hop hrun hc he⟩
      obtain ⟨f, rfl, -⟩ := hm
      rfl

/-- A loop that tests a byte and compares a counter : the test is moved behind the load, and
the comparison is left out after its condition is answered from the difference. -/
def scanningBlock : Block where
  start := 0x1000
  operations :=
    [{ opcode := .readGuestReg, result := some 0, guestRegister := some .rsi },
     { opcode := .updateLogicFlags, lhs := some 0 },
     { opcode := .loadGuest, width := .i8, result := some 1, lhs := some 0 },
     { opcode := .constant, immediate := 1, result := some 2 },
     { opcode := .sub, result := some 3, lhs := some 0, rhs := some 2 },
     { opcode := .updateSubFlags, lhs := some 0, rhs := some 2, third := some 3 },
     { opcode := .evaluateCondition, width := .i8, result := some 4, condition := some .equal },
     { opcode := .updateLogicFlags, width := .i8, lhs := some 1 },
     { opcode := .exitBlock, exitKind := .conditional, condition := some .notEqual,
       target := some 0x1000, fallthrough := some 0x1020 }]
  valueCount := 5

/-- A state to start a block in. -/
def startingMachine : Machine Unit where
  values _ := 0
  guest :=
    { regs := fun _ => 1, rip := 0x1000, rflags := 2, xmm := fun _ => (0, 0),
      ymmUpper := fun _ => (0, 0), gsBase := 0 }
  memory := ()

theorem rewrittenRun_scanningBlock :
    scanningBlock.Verified ∧ logicFlagSinkTarget scanningBlock 1 = some 2 ∧
      isDeadFlagUpdate scanningBlock 5 true = true ∧
      rewrittenRun .unmapped scanningBlock (fun _ => true) 0 scanningBlock.operations
          startingMachine =
        Rosa.run .unmapped scanningBlock.operations startingMachine :=
  ⟨by decide, by decide, by decide,
    (rewrittenRun_observedAlike .unmapped scanningBlock (by decide) (fun _ => true)
      startingMachine).1⟩

end Arm64

end Rosa
