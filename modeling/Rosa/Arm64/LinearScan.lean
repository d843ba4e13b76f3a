import Rosa.Arm64.RegisterAssignment
import Rosa.Logic.NumberedLoops

/-!
# Values that share no register

`allocateHostRegisters` of `arm64/Backend.cpp` for any choice of its last three parameters. The
last use of a value is the latest of its reads, the conditions that are answered from it, the
place behind which a logic update of it is moved, and the end of the block if the update that
is deferred to the exit reads it. The scan frees the register of a value at the first operation
behind its last use, so a value that is read by the operation that defines another one keeps
its register for that operation.

`Block.Verified` speaks of the operands that an opcode reads. The scan looks at all three
operand fields of every operation, and it rejects a block in which one of them names a value
outside the value table, whether the opcode reads that field or not.
-/

namespace Rosa

namespace Arm64

/-- The parameters of `allocateHostRegisters`. A deferred update is one of the operations of
the block. -/
structure ScanSettings where
  fuseZeroFlagConsumers : Bool
  sinkLogicFlags : Bool
  deferredExitUpdate : Option Nat
  deriving DecidableEq, Repr

namespace ScanSettings

/-- The value that a fused condition is answered from. -/
def fusedSource (settings : ScanSettings) (block : Block) (index : Nat) (op : Operation) :
    Option ZeroFlagSource :=
  if settings.fuseZeroFlagConsumers && consumesOnlyZeroFlag op then zeroFlagSourceAt block index
  else none

/-- The load behind which a logic update is moved. -/
def sinkTarget (settings : ScanSettings) (block : Block) (index : Nat) : Option Nat :=
  if settings.sinkLogicFlags then logicFlagSinkTarget block index else none

/-- The uses that one operation makes, with their places. -/
def usesOf (settings : ScanSettings) (block : Block) (index : Nat) (op : Operation) :
    List (ValueId × Nat) :=
  (operandValues op).map (fun v => (v, index)) ++
    (settings.fusedSource block index op).toList.map (fun source => (source.value, index)) ++
    ((settings.sinkTarget block index).bind fun target => op.lhs.map fun v => (v, target)).toList

/-- The values that the deferred update reads. -/
def deferredValues (settings : ScanSettings) (block : Block) : List ValueId :=
  (settings.deferredExitUpdate.bind fun index => block.operations[index]?).elim [] operandValues

end ScanSettings

/-- `std::max` with the last use so far. -/
def extendUse (lastUses : ValueId → Nat) (use : ValueId × Nat) : ValueId → Nat :=
  Function.update lastUses use.1 (max (lastUses use.1) use.2)

/-- One turn of the loop that collects the last uses. -/
def ScanSettings.countUses (settings : ScanSettings) (block : Block) (lastUses : ValueId → Nat)
    (entry : Operation × Nat) : ValueId → Nat :=
  let (op, index) := entry
  (settings.usesOf block index op).foldl extendUse
    (op.result.elim lastUses fun r => Function.update lastUses r index)

/-- `lastUses`. -/
def ScanSettings.lastUses (settings : ScanSettings) (block : Block) : ValueId → Nat :=
  (settings.deferredValues block).foldl
    (fun uses v => Function.update uses v (block.operations.length - 1))
    (block.operations.zipIdx.foldl (settings.countUses block) fun _ => 0)

/-- The slots of the scan, and the registers given so far. -/
abbrev ScanSlots := List (Option ValueId) × (ValueId → Option XRegister)

/-- One turn of the scan. -/
def linearScanOperation (lastUses : ValueId → Nat) (state : ScanSlots) (entry : Operation × Nat) :
    Except String ScanSlots :=
  let (op, index) := entry
  let active := state.1.map fun value => value.filter fun v => index ≤ lastUses v
  match op.result with
  | none => .ok (active, state.2)
  | some r =>
    match active.findIdx? Option.isNone with
    | none => .error "R1 linear-scan register allocator exhausted x8...x15"
    | some slot =>
      .ok (active.set slot (some r), Function.update state.2 r (some (Fin.ofNat 32 (8 + slot))))

/-- `allocateHostRegisters`. -/
def ScanSettings.allocateHostRegisters (settings : ScanSettings) (block : Block) :
    Except String (ValueId → Option XRegister) :=
  if block.operations.any fun op =>
      (op.result.toList ++ operandValues op).any (block.valueCount ≤ ·) then
    .error "R1 register allocation saw an out-of-range IR value"
  else do
    let (_, assignments) ← block.operations.zipIdx.foldlM
      (linearScanOperation (settings.lastUses block)) (List.replicate 8 none, fun _ => none)
    if block.operations.any fun op => op.result.any fun r => (assignments r).isNone then
      .error "R1 register allocation left an IR value unassigned"
    else .ok assignments

/-! ## The settings of `compile` -/

/-- The settings that `compile` uses for a block. -/
def scanSettings (block : Block) : ScanSettings :=
  ⟨hasInternalSelfEdge block, hasInternalSelfEdge block, deferredExitFlagUpdate block⟩

theorem countUses_scanSettings (block : Block) :
    (scanSettings block).countUses block = countUses block := by
  funext uses entry
  obtain ⟨op, index⟩ := entry
  have hfused : (scanSettings block).fusedSource block index op = fusedSource block index op := rfl
  have hsink : (scanSettings block).sinkTarget block index =
      if hasInternalSelfEdge block then logicFlagSinkTarget block index else none := rfl
  simp only [ScanSettings.countUses, countUses, ScanSettings.usesOf, List.foldl_append,
    List.foldl_map, hfused, hsink]
  cases fusedSource block index op <;>
    cases (if hasInternalSelfEdge block then logicFlagSinkTarget block index else none) <;>
    cases op.lhs <;> rfl

theorem lastUses_scanSettings (block : Block) :
    (scanSettings block).lastUses block = lastUses block := by
  simp only [ScanSettings.lastUses, countUses_scanSettings]
  rfl

theorem allocateHostRegisters_scanSettings (block : Block) :
    (scanSettings block).allocateHostRegisters block = allocateHostRegisters block := by
  simp only [ScanSettings.allocateHostRegisters, lastUses_scanSettings]
  rfl

/-! ## Live ranges -/

/-- The operation at the index defines the value. -/
def DefinedAt (block : Block) (v : ValueId) (index : Nat) : Prop :=
  ∃ op, block.operations[index]? = some op ∧ op.result = some v

/-- The value is defined before the operation at the index. -/
def DefinedBefore (block : Block) (v : ValueId) (index : Nat) : Prop :=
  ∃ d < index, DefinedAt block v d

/-- The places up to which a value has to be kept : its definition and each of its uses. -/
inductive LiveUntil (settings : ScanSettings) (block : Block) (v : ValueId) : Nat → Prop
  | definition {index : Nat} (hd : DefinedAt block v index) : LiveUntil settings block v index
  | operand {index : Nat} {op : Operation} (hop : block.operations[index]? = some op)
      (hv : v ∈ operandValues op) : LiveUntil settings block v index
  | zeroFlag {index : Nat} {op : Operation} {source : ZeroFlagSource}
      (hfuse : settings.fuseZeroFlagConsumers = true) (hop : block.operations[index]? = some op)
      (hconsumes : consumesOnlyZeroFlag op = true)
      (hs : zeroFlagSourceAt block index = some source) (hv : source.value = v) :
      LiveUntil settings block v index
  | sunk {index target : Nat} {op : Operation} (hsink : settings.sinkLogicFlags = true)
      (hop : block.operations[index]? = some op) (hl : op.lhs = some v)
      (ht : logicFlagSinkTarget block index = some target) : LiveUntil settings block v target
  | exit {index : Nat} {op : Operation} (hd : settings.deferredExitUpdate = some index)
      (hop : block.operations[index]? = some op) (hv : v ∈ operandValues op) :
      LiveUntil settings block v (block.operations.length - 1)

/-- The live ranges of two values have an operation in common. -/
def Overlap (settings : ScanSettings) (block : Block) (v w : ValueId) : Prop :=
  ∃ d e, DefinedAt block v d ∧ DefinedAt block w e ∧
    (∃ i, LiveUntil settings block w i ∧ d ≤ i) ∧ ∃ i, LiveUntil settings block v i ∧ e ≤ i

/-- At an operation with a result at least eight values that are defined before it are live. -/
def Crowded (settings : ScanSettings) (block : Block) (index : Nat) : Prop :=
  (∃ r, DefinedAt block r index) ∧ ∃ live : Finset ValueId, 8 ≤ live.card ∧
    ∀ v ∈ live, DefinedBefore block v index ∧ ∃ i, LiveUntil settings block v i ∧ index ≤ i

/-- An operand field names a value outside the value table. -/
def NamesForeignValue (block : Block) : Prop :=
  ∃ op ∈ block.operations, ∃ v ∈ operandValues op, block.valueCount ≤ v

/-! ## Last uses -/

theorem le_foldl_extendUse (v : ValueId) : ∀ (events : List (ValueId × Nat))
    (uses : ValueId → Nat), uses v ≤ events.foldl extendUse uses v
  | [], _ => le_rfl
  | event :: events, uses => by
    have hle : uses v ≤ extendUse uses event v := by
      rw [extendUse, Function.update_apply]
      split
      · next h => exact h ▸ le_max_left ..
      · exact le_rfl
    exact hle.trans (le_foldl_extendUse v events _)

theorem le_foldl_extendUse_of_mem {v : ValueId} {i : Nat} : ∀ {events : List (ValueId × Nat)}
    (uses : ValueId → Nat), (v, i) ∈ events → i ≤ events.foldl extendUse uses v
  | event :: events, uses, h => by
    rcases List.mem_cons.mp h with hevent | hrest
    · subst hevent
      have hle : i ≤ extendUse uses (v, i) v := by simp [extendUse]
      exact hle.trans (le_foldl_extendUse v events _)
    · exact le_foldl_extendUse_of_mem (extendUse uses event) hrest

theorem foldl_extendUse_cases (v : ValueId) : ∀ (events : List (ValueId × Nat))
    (uses : ValueId → Nat), events.foldl extendUse uses v = uses v ∨
      (v, events.foldl extendUse uses v) ∈ events
  | [], _ => .inl rfl
  | event :: events, uses => by
    rcases foldl_extendUse_cases v events (extendUse uses event) with h | h
    · rw [List.foldl_cons, h, extendUse, Function.update_apply]
      split
      · next hv =>
        subst hv
        rcases max_cases (uses event.1) event.2 with ⟨hmax, -⟩ | ⟨hmax, -⟩
        · exact .inl hmax
        · exact .inr (by simp [hmax])
      · exact .inl rfl
    · exact .inr (List.mem_cons_of_mem _ h)

theorem sinkTarget_lt {t : Nat} : ∀ {target : Option Nat} {ops : List Operation} {i : Nat},
    sinkTargetFrom target i ops = some t → t < i + ops.length ∨ target = some t
  | _, [], _, h => by cases h
  | target, op :: ops, i, h => by
    simp only [sinkTargetFrom] at h
    split at h
    · rcases sinkTarget_lt h with h | h
      · exact .inl (by simp only [List.length_cons]; omega)
      · exact .inr h
    · split at h
      · split at h
        · rcases sinkTarget_lt h with h | h
          · exact .inl (by simp only [List.length_cons]; omega)
          · obtain rfl := Option.some.inj h
            exact .inl (by simp)
        · cases h
      · split at h
        · exact .inr h
        · cases h

/-- A moved update is a logic update, and it is moved to an operation of the block. -/
theorem logicFlagSinkTarget_spec {block : Block} {index target : Nat}
    (h : logicFlagSinkTarget block index = some target) :
    target < block.operations.length ∧
      ∃ op, block.operations[index]? = some op ∧ op.opcode = .updateLogicFlags := by
  unfold logicFlagSinkTarget at h
  cases hop : block.operations[index]? with
  | none => simp [hop] at h
  | some op =>
    simp only [hop] at h
    split at h
    · next hlogic =>
      refine ⟨?_, op, rfl, hlogic⟩
      have hlt := (List.getElem?_eq_some_iff.mp hop).1
      rcases sinkTarget_lt h with h | h
      · rw [List.length_drop] at h
        omega
      · cases h
    · cases h

section

variable {settings : ScanSettings} {block : Block}

theorem mem_usesOf {v : ValueId} {i index : Nat} {op : Operation} :
    (v, i) ∈ settings.usesOf block index op ↔
      (v ∈ operandValues op ∧ i = index) ∨
      (settings.fuseZeroFlagConsumers = true ∧ consumesOnlyZeroFlag op = true ∧
        (∃ source, zeroFlagSourceAt block index = some source ∧ source.value = v) ∧ i = index) ∨
      (settings.sinkLogicFlags = true ∧ logicFlagSinkTarget block index = some i ∧
        op.lhs = some v) := by
  simp only [ScanSettings.usesOf, ScanSettings.fusedSource, ScanSettings.sinkTarget,
    List.mem_append, List.mem_map, Option.mem_toList, Option.ite_none_right_eq_some,
    Bool.and_eq_true, Prod.mk.injEq, Option.bind_eq_some_iff, Option.map_eq_some_iff]
  grind

/-- Every use of an operation of the block is a place up to which the value is live. -/
theorem liveUntil_of_mem_usesOf {v : ValueId} {i index : Nat} {op : Operation}
    (hop : block.operations[index]? = some op) (h : (v, i) ∈ settings.usesOf block index op) :
    LiveUntil settings block v i := by
  rcases mem_usesOf.mp h with ⟨hv, rfl⟩ | ⟨hfuse, hconsumes, ⟨source, hs, hv⟩, rfl⟩ |
    ⟨hsink, ht, hl⟩
  · exact .operand hop hv
  · exact .zeroFlag hfuse hop hconsumes hs hv
  · exact .sunk hsink hop hl ht

/-- A use that is counted before the definition does not reach behind it. -/
theorem use_le_of_lt_definition (h : block.Verified) {v : ValueId} {i k d : Nat} {op : Operation}
    (hop : block.operations[k]? = some op) (hu : (v, i) ∈ settings.usesOf block k op)
    (hd : DefinedAt block v d) (hk : k < d) : i ≤ k := by
  rcases mem_usesOf.mp hu with ⟨-, rfl⟩ | ⟨-, -, -, rfl⟩ | ⟨-, ht, hl⟩
  · exact le_rfl
  · exact le_rfl
  · -- A moved update reads its operand, so the definition stands before it.
    obtain ⟨-, update, hupdate, hlogic⟩ := logicFlagSinkTarget_spec ht
    obtain rfl : update = op := by simpa [hupdate] using hop
    obtain ⟨defined, hcheck, -, hdefined⟩ := h.at_index hop
    simp only [checkOperation, hlogic, checkUse_eq_nil, hl, Option.some.injEq] at hcheck
    obtain ⟨w, rfl, hw⟩ := hcheck
    obtain ⟨j, hj, definition, hjop, hjv⟩ := (hdefined v).mp hw
    obtain ⟨other, hother, hotherv⟩ := hd
    have := h.unique hjop hother hjv hotherv
    omega

/-- Before the operation at the index the loop has counted a place for a value. -/
def CountedUse (settings : ScanSettings) (block : Block) (index : Nat) (v : ValueId) (i : Nat) :
    Prop :=
  (DefinedAt block v i ∧ i < index) ∨
    ∃ k < index, ∃ op, block.operations[k]? = some op ∧ (v, i) ∈ settings.usesOf block k op

/-- The last uses so far are the latest places of the values defined so far. -/
def CountedUses (settings : ScanSettings) (block : Block) (index : Nat) (uses : ValueId → Nat) :
    Prop :=
  ∀ v, DefinedBefore block v index → IsGreatest {i | CountedUse settings block index v i} (uses v)

theorem CountedUse.mono {index : Nat} {v : ValueId} {i : Nat}
    (h : CountedUse settings block index v i) : CountedUse settings block (index + 1) v i := by
  rcases h with ⟨hd, hi⟩ | ⟨k, hk, op, hop, hu⟩
  · exact .inl ⟨hd, Nat.lt_succ_of_lt hi⟩
  · exact .inr ⟨k, Nat.lt_succ_of_lt hk, op, hop, hu⟩

/-- One turn of the loop. -/
theorem CountedUses.countUses (h : block.Verified) {index : Nat} {op : Operation}
    {uses : ValueId → Nat} (hop : block.operations[index]? = some op)
    (hc : CountedUses settings block index uses) :
    CountedUses settings block (index + 1) (settings.countUses block uses (op, index)) := by
  rintro v ⟨d, hd, hdef⟩
  simp only [ScanSettings.countUses]
  generalize hbase : (op.result.elim uses fun r => Function.update uses r index) = base
  have hbound := le_foldl_extendUse v (settings.usesOf block index op) base
  have hnew {i : Nat} (hu : (v, i) ∈ settings.usesOf block index op) :
      i ≤ (settings.usesOf block index op).foldl extendUse base v :=
    le_foldl_extendUse_of_mem base hu
  have hlast := foldl_extendUse_cases v (settings.usesOf block index op) base
  rcases Nat.lt_succ_iff_lt_or_eq.mp hd with hlt | rfl
  · have hkeep : base v = uses v := by
      obtain ⟨definition, hdop, hdv⟩ := hdef
      cases hr : op.result with
      | none => simp [← hbase, hr]
      | some r =>
        have hne : v ≠ r := by
          rintro rfl
          have := h.unique hdop hop hdv hr
          omega
        simp [← hbase, hr, hne]
    obtain ⟨hmem, hupper⟩ := hc v ⟨d, hlt, hdef⟩
    refine ⟨?_, ?_⟩
    · rcases hlast with hlast | hlast
      · rw [hlast, hkeep]
        exact hmem.mono
      · exact .inr ⟨index, Nat.lt_succ_self _, op, hop, hlast⟩
    · rintro i (⟨hdi, -⟩ | ⟨k, hk, d', hdop', hu⟩)
      · have hi : i = d := by
          obtain ⟨a, ha, hav⟩ := hdi
          obtain ⟨b, hb, hbv⟩ := hdef
          exact h.unique ha hb hav hbv
        exact (hupper (.inl ⟨hdi, by omega⟩)).trans (hkeep ▸ hbound)
      · rcases Nat.lt_succ_iff_lt_or_eq.mp hk with hk | rfl
        · exact (hupper (.inr ⟨k, hk, d', hdop', hu⟩)).trans (hkeep ▸ hbound)
        · obtain rfl : op = d' := by simpa [hop] using hdop'
          exact hnew hu
  · have hv : op.result = some v := by
      obtain ⟨definition, hdop, hdv⟩ := hdef
      obtain rfl : op = definition := by simpa [hop] using hdop
      exact hdv
    have hset : base v = d := by simp [← hbase, hv]
    refine ⟨?_, ?_⟩
    · rcases hlast with hlast | hlast
      · rw [hlast, hset]
        exact .inl ⟨hdef, hd⟩
      · exact .inr ⟨d, hd, op, hop, hlast⟩
    · rintro i (⟨-, hi⟩ | ⟨k, hk, d', hdop', hu⟩)
      · omega
      · rcases Nat.lt_succ_iff_lt_or_eq.mp hk with hk | rfl
        · have := use_le_of_lt_definition h hdop' hu hdef hk
          omega
        · obtain rfl : op = d' := by simpa [hop] using hdop'
          exact hnew hu

theorem LiveUntil.lt_length {v : ValueId} {i : Nat} (h : LiveUntil settings block v i) :
    i < block.operations.length := by
  have hlength {k : Nat} {op : Operation} (hop : block.operations[k]? = some op) :
      k < block.operations.length := (List.getElem?_eq_some_iff.mp hop).1
  cases h with
  | definition hd =>
    obtain ⟨op, hop, -⟩ := hd
    exact hlength hop
  | operand hop hv => exact hlength hop
  | zeroFlag hfuse hop hconsumes hs hv => exact hlength hop
  | sunk hsink hop hl ht => exact (logicFlagSinkTarget_spec ht).1
  | exit hd hop hv =>
    have := hlength hop
    omega

/-- The values of the deferred update are used at the end, the others where they were. -/
theorem foldl_update_const (last : Nat) (v : ValueId) : ∀ {values : List ValueId}
    {uses : ValueId → Nat},
    values.foldl (fun uses w => Function.update uses w last) uses v =
      if v ∈ values then last else uses v
  | [], uses => by simp
  | w :: values, uses => by
    rw [List.foldl_cons, foldl_update_const last v, Function.update_apply]
    by_cases hw : v = w <;> simp [hw]

theorem mem_deferredValues {v : ValueId} :
    v ∈ settings.deferredValues block ↔ ∃ index op, settings.deferredExitUpdate = some index ∧
      block.operations[index]? = some op ∧ v ∈ operandValues op := by
  unfold ScanSettings.deferredValues
  cases settings.deferredExitUpdate with
  | none => simp
  | some index => cases hop : block.operations[index]? <;> simp [hop]

/-- The last use that the scan works with is the end of the live range. -/
theorem lastUses_isGreatest (settings : ScanSettings) (h : block.Verified) {v : ValueId} {d : Nat}
    (hd : DefinedAt block v d) :
    IsGreatest {i | LiveUntil settings block v i} (settings.lastUses block v) := by
  have hcounted : CountedUses settings block block.operations.length
      (block.operations.zipIdx.foldl (settings.countUses block) fun _ => 0) := by
    refine foldl_zipIdx_induction (fun i op uses hop hc => hc.countUses h hop) ?_
    rintro v ⟨d, hd, -⟩
    cases hd
  have hlength {j : Nat} (hj : DefinedAt block v j) : j < block.operations.length := by
    obtain ⟨op, hop, -⟩ := hj
    exact (List.getElem?_eq_some_iff.mp hop).1
  obtain ⟨hmem, hupper⟩ := hcounted v ⟨d, hlength hd, hd⟩
  rw [ScanSettings.lastUses, foldl_update_const]
  split
  · next hv =>
    obtain ⟨index, op, hindex, hop, hv⟩ := mem_deferredValues.mp hv
    refine ⟨.exit hindex hop hv, fun i hi => ?_⟩
    have := LiveUntil.lt_length hi
    omega
  · next hv =>
    refine ⟨?_, fun i hi => ?_⟩
    · rcases hmem with ⟨hdef, -⟩ | ⟨k, -, op, hop, hu⟩
      · exact .definition hdef
      · exact liveUntil_of_mem_usesOf hop hu
    · have hlt {k : Nat} {op : Operation} (hop : block.operations[k]? = some op) :
          k < block.operations.length := (List.getElem?_eq_some_iff.mp hop).1
      cases hi with
      | definition hdef => exact hupper (.inl ⟨hdef, hlength hdef⟩)
      | operand hop hv' =>
        exact hupper (.inr ⟨i, hlt hop, _, hop, mem_usesOf.mpr (.inl ⟨hv', rfl⟩)⟩)
      | zeroFlag hfuse hop hconsumes hs hsv =>
        exact hupper (.inr ⟨i, hlt hop, _, hop,
          mem_usesOf.mpr (.inr (.inl ⟨hfuse, hconsumes, ⟨_, hs, hsv⟩, rfl⟩))⟩)
      | sunk hsink hop hl ht =>
        exact hupper (.inr ⟨_, hlt hop, _, hop, mem_usesOf.mpr (.inr (.inr ⟨hsink, ht, hl⟩))⟩)
      | exit hd' hop hv' => exact absurd (mem_deferredValues.mpr ⟨_, _, hd', hop, hv'⟩) hv

/-! ## The scan -/

/-- The register of a slot. -/
def slotRegister (slot : Nat) : XRegister := Fin.ofNat 32 (8 + slot)

theorem slotRegister_mem {slot : Nat} (h : slot < 8) : slotRegister slot ∈ scanRegisters := by
  interval_cases slot <;> decide

theorem slotRegister_injOn {a b : Nat} (ha : a < 8) (hb : b < 8)
    (h : slotRegister a = slotRegister b) : a = b := by
  have hval := congrArg Fin.val h
  simp only [slotRegister, Fin.val_ofNat] at hval
  omega

/-- Both values are defined when the other one is still used. -/
def SharedTime (block : Block) (lastUses : ValueId → Nat) (v w : ValueId) : Prop :=
  ∃ d e, DefinedAt block v d ∧ DefinedAt block w e ∧ d ≤ lastUses w ∧ e ≤ lastUses v

/-- The slots when the values whose last use has passed are gone : they hold the values that
are defined before and still used, each in the slot of its register. -/
structure Holds (block : Block) (lastUses : ValueId → Nat) (index : Nat)
    (active : List (Option ValueId)) (registers : ValueId → Option XRegister) : Prop where
  length : active.length = 8
  held : ∀ {slot v}, active[slot]? = some (some v) →
    DefinedBefore block v index ∧ index ≤ lastUses v ∧ registers v = some (slotRegister slot)
  kept : ∀ {v}, DefinedBefore block v index → index ≤ lastUses v →
    ∃ slot : Nat, active[slot]? = some (some v)

/-- The state of the scan before the operation at the index. -/
structure Scanned (block : Block) (lastUses : ValueId → Nat) (index : Nat) (state : ScanSlots) :
    Prop where
  holds : Holds block lastUses index
    (state.1.map fun value => value.filter fun v => index ≤ lastUses v) state.2
  given : ∀ {v}, DefinedBefore block v index → ∃ slot < 8, state.2 v = some (slotRegister slot)
  defined : ∀ {v r}, state.2 v = some r → DefinedBefore block v index
  apart : ∀ {v w r}, state.2 v = some r → state.2 w = some r → v ≠ w →
    ¬SharedTime block lastUses v w

/-- At an operation with a result eight values are in use. -/
def Exhausted (block : Block) (lastUses : ValueId → Nat) (index : Nat) : Prop :=
  (∃ r, DefinedAt block r index) ∧ ∃ live : Finset ValueId, 8 ≤ live.card ∧
    ∀ v ∈ live, DefinedBefore block v index ∧ index ≤ lastUses v

theorem DefinedBefore.succ {v : ValueId} {index : Nat} (h : DefinedBefore block v index) :
    DefinedBefore block v (index + 1) := by
  obtain ⟨d, hd, hdef⟩ := h
  exact ⟨d, Nat.lt_succ_of_lt hd, hdef⟩

theorem definedBefore_succ_iff {v : ValueId} {index : Nat} :
    DefinedBefore block v (index + 1) ↔ DefinedBefore block v index ∨ DefinedAt block v index := by
  constructor
  · rintro ⟨d, hd, hdef⟩
    rcases Nat.lt_succ_iff_lt_or_eq.mp hd with hd | rfl
    · exact .inl ⟨d, hd, hdef⟩
    · exact .inr hdef
  · rintro (h | h)
    · exact h.succ
    · exact ⟨index, Nat.lt_succ_self _, h⟩

theorem DefinedAt.unique (h : block.Verified) {v : ValueId} {d e : Nat}
    (hd : DefinedAt block v d) (he : DefinedAt block v e) : d = e := by
  obtain ⟨a, ha, hav⟩ := hd
  obtain ⟨b, hb, hbv⟩ := he
  exact h.unique ha hb hav hbv

theorem DefinedBefore.not_definedAt (h : block.Verified) {v : ValueId} {index : Nat}
    (hb : DefinedBefore block v index) : ¬DefinedAt block v index := by
  intro hd
  obtain ⟨d, hlt, hdef⟩ := hb
  have := hdef.unique h hd
  omega

section

variable {lastUses : ValueId → Nat} {index slot : Nat} {active : List (Option ValueId)}
  {registers : ValueId → Option XRegister}

/-- Without a free slot the eight values are all in use. -/
theorem Holds.exhausted (hh : Holds block lastUses index active registers) {r : ValueId}
    (hr : DefinedAt block r index) (hfull : active.findIdx? Option.isNone = none) :
    Exhausted block lastUses index := by
  have hsome (slot : Fin 8) : ∃ v, active[slot.val]? = some (some v) := by
    have hlt : slot.val < active.length := by rw [hh.length]; exact slot.isLt
    have hne := List.findIdx?_eq_none_iff.mp hfull _ (List.getElem_mem hlt)
    obtain ⟨v, hv⟩ := Option.isSome_iff_exists.mp (by simpa using hne)
    exact ⟨v, by rw [List.getElem?_eq_getElem hlt, hv]⟩
  choose value hvalue using hsome
  have hinjective : Function.Injective value := by
    intro a b hab
    have ha := (hh.held (hvalue a)).2.2
    rw [hab, (hh.held (hvalue b)).2.2] at ha
    exact Fin.ext (slotRegister_injOn a.isLt b.isLt (Option.some.inj ha).symm)
  refine ⟨⟨r, hr⟩, Finset.univ.image value, ?_, fun v hv => ?_⟩
  · rw [Finset.card_image_of_injective _ hinjective]
    simp
  · obtain ⟨slot, -, rfl⟩ := Finset.mem_image.mp hv
    exact ⟨(hh.held (hvalue slot)).1, (hh.held (hvalue slot)).2.1⟩

/-- With a free slot there are at most seven. -/
theorem Holds.not_exhausted (hh : Holds block lastUses index active registers)
    (hfree : active[slot]? = some none) : ¬Exhausted block lastUses index := by
  rintro ⟨-, live, hcard, hlive⟩
  have hslot (v : ValueId) (hv : v ∈ live) : ∃ s : Nat, active[s]? = some (some v) :=
    hh.kept (hlive v hv).1 (hlive v hv).2
  choose! slotOf hslotOf using hslot
  have hlt {s : Nat} {value : Option ValueId} (hs : active[s]? = some value) : s < 8 :=
    hh.length ▸ (List.getElem?_eq_some_iff.mp hs).1
  have hmaps : ∀ v ∈ live, slotOf v ∈ (Finset.range 8).erase slot := by
    intro v hv
    refine Finset.mem_erase.mpr ⟨fun he => ?_, Finset.mem_range.mpr (hlt (hslotOf v hv))⟩
    have := hslotOf v hv
    rw [he, hfree] at this
    cases this
  have hinjective : Set.InjOn slotOf live := by
    intro v hv w hw he
    have := hslotOf v hv
    rw [he, hslotOf w hw] at this
    simpa using this.symm
  have hle := Finset.card_le_card_of_injOn slotOf hmaps hinjective
  rw [Finset.card_erase_of_mem (Finset.mem_range.mpr (hlt hfree)), Finset.card_range] at hle
  omega

/-- The slots at the next operation, when a turn leaves the slots `active'`. -/
theorem Holds.next {active' : List (Option ValueId)} {registers' : ValueId → Option XRegister}
    (hlength : active'.length = 8)
    (hheld : ∀ {slot v}, active'[slot]? = some (some v) →
      DefinedBefore block v (index + 1) ∧ registers' v = some (slotRegister slot))
    (hkept : ∀ {v}, DefinedBefore block v (index + 1) → index + 1 ≤ lastUses v →
      ∃ slot : Nat, active'[slot]? = some (some v)) :
    Holds block lastUses (index + 1)
      (active'.map fun value => value.filter fun v => index + 1 ≤ lastUses v) registers' where
  length := by rw [List.length_map, hlength]
  held := by
    intro slot v hv
    rw [List.getElem?_map, Option.map_eq_some_iff] at hv
    obtain ⟨value, hvalue, hfilter⟩ := hv
    obtain ⟨rfl, hle⟩ := Option.filter_eq_some_iff.mp hfilter
    obtain ⟨hdef, hregister⟩ := hheld hvalue
    exact ⟨hdef, by simpa using hle, hregister⟩
  kept := by
    intro v hdef hle
    obtain ⟨slot, hslot⟩ := hkept hdef hle
    refine ⟨slot, ?_⟩
    rw [List.getElem?_map, hslot, Option.map_some, Option.filter_some,
      if_pos (decide_eq_true hle)]

/-- An operation without a result leaves the registers. -/
theorem Scanned.pass {state : ScanSlots} {op : Operation} (hs : Scanned block lastUses index state)
    (hop : block.operations[index]? = some op) (hr : op.result = none) :
    Scanned block lastUses (index + 1)
      (state.1.map fun value => value.filter fun v => index ≤ lastUses v, state.2) := by
  have hsame {v : ValueId} (hv : DefinedBefore block v (index + 1)) :
      DefinedBefore block v index := by
    refine (definedBefore_succ_iff.mp hv).resolve_right ?_
    rintro ⟨other, hother, hv⟩
    rw [hop] at hother
    obtain rfl := Option.some.inj hother
    rw [hr] at hv
    cases hv
  refine ⟨.next hs.holds.length (fun hv => ?_) (fun hv hle => ?_), fun hv => hs.given (hsame hv),
    fun hv => (hs.defined hv).succ, hs.apart⟩
  · obtain ⟨hdef, -, hregister⟩ := hs.holds.held hv
    exact ⟨hdef.succ, hregister⟩
  · exact hs.holds.kept (hsame hv) (Nat.le_of_succ_le hle)

/-- A result takes a free slot. -/
theorem Scanned.take (h : block.Verified) {state : ScanSlots} {r : ValueId}
    (hs : Scanned block lastUses index state) (hr : DefinedAt block r index)
    (hfree : (state.1.map fun value => value.filter fun v => index ≤ lastUses v)[slot]? =
      some none) :
    Scanned block lastUses (index + 1)
      ((state.1.map fun value => value.filter fun v => index ≤ lastUses v).set slot (some r),
        Function.update state.2 r (some (slotRegister slot))) := by
  generalize hactive : (state.1.map fun value => value.filter fun v => index ≤ lastUses v) =
    active at hfree
  have hh : Holds block lastUses index active state.2 := hactive ▸ hs.holds
  have hslot : slot < active.length := (List.getElem?_eq_some_iff.mp hfree).1
  have hlt : slot < 8 := hh.length ▸ hslot
  -- The values so far are other values, and those in use are in other slots.
  have hne {v : ValueId} (hv : DefinedBefore block v index) : v ≠ r := by
    rintro rfl
    exact hv.not_definedAt h hr
  have hother {v : ValueId} (hv : DefinedBefore block v index) :
      Function.update state.2 r (some (slotRegister slot)) v = state.2 v :=
    Function.update_of_ne (hne hv) ..
  have hnotShared {v : ValueId} (hv : state.2 v = some (slotRegister slot)) :
      ¬index ≤ lastUses v := by
    intro hle
    obtain ⟨s, hsv⟩ := hh.kept (hs.defined hv) hle
    have hregister := (hh.held hsv).2.2
    rw [hv] at hregister
    have hs8 : s < 8 := hh.length ▸ (List.getElem?_eq_some_iff.mp hsv).1
    obtain rfl := slotRegister_injOn hlt hs8 (Option.some.inj hregister)
    rw [hfree] at hsv
    cases hsv
  refine ⟨.next (by rw [List.length_set, hh.length]) (fun {s v} hv => ?_) (fun {v} hv hle => ?_),
    fun {v} hv => ?_, fun {v x} hv => ?_, fun {v w x} hv hw hvw => ?_⟩
  · rcases eq_or_ne slot s with rfl | hs'
    · rw [List.getElem?_set_self hslot] at hv
      obtain rfl : r = v := by simpa using hv
      exact ⟨definedBefore_succ_iff.mpr (.inr hr), Function.update_self ..⟩
    · rw [List.getElem?_set_ne hs'] at hv
      obtain ⟨hdef, -, hregister⟩ := hh.held hv
      exact ⟨hdef.succ, (hother hdef).trans hregister⟩
  · rcases definedBefore_succ_iff.mp hv with hv | hv
    · obtain ⟨s, hsv⟩ := hh.kept hv (Nat.le_of_succ_le hle)
      have hs' : slot ≠ s := by
        rintro rfl
        rw [hfree] at hsv
        cases hsv
      exact ⟨s, by rw [List.getElem?_set_ne hs', hsv]⟩
    · obtain rfl : v = r := by
        obtain ⟨a, ha, hav⟩ := hv
        obtain ⟨b, hb, hbr⟩ := hr
        obtain rfl : a = b := by simpa [ha] using hb
        simpa [hav] using hbr
      exact ⟨slot, List.getElem?_set_self hslot⟩
  · rcases eq_or_ne v r with rfl | hvr
    · exact ⟨slot, hlt, Function.update_self ..⟩
    · rcases definedBefore_succ_iff.mp hv with hv | hv
      · obtain ⟨s, hs8, hregister⟩ := hs.given hv
        exact ⟨s, hs8, (hother hv).trans hregister⟩
      · obtain ⟨a, ha, hav⟩ := hv
        obtain ⟨b, hb, hbr⟩ := hr
        obtain rfl : a = b := by simpa [ha] using hb
        exact absurd (by simpa [hav] using hbr) hvr
  · dsimp only at hv
    rw [Function.update_apply] at hv
    split at hv
    · next hvr => exact hvr ▸ definedBefore_succ_iff.mpr (.inr hr)
    · exact (hs.defined hv).succ
  · dsimp only at hv hw
    rw [Function.update_apply] at hv hw
    rintro ⟨d, e, hd, he, hdw, hev⟩
    split at hv
    · next hvr =>
      subst hvr
      rw [if_neg hvw.symm] at hw
      obtain rfl := hd.unique h hr
      exact hnotShared (hw.trans hv.symm) hdw
    · split at hw
      · next hwr =>
        subst hwr
        obtain rfl := he.unique h hr
        exact hnotShared (hv.trans hw.symm) hev
      · exact hs.apart hv hw hvw ⟨d, e, hd, he, hdw, hev⟩

/-- One turn of the scan : it goes on with fewer than eight values in use, or it fails. -/
theorem linearScanOperation_spec (h : block.Verified) {state : ScanSlots} {op : Operation}
    (hs : Scanned block lastUses index state) (hop : block.operations[index]? = some op) :
    (∃ state', linearScanOperation lastUses state (op, index) = .ok state' ∧
        Scanned block lastUses (index + 1) state' ∧ ¬Exhausted block lastUses index) ∨
      (∃ e, linearScanOperation lastUses state (op, index) = .error e) ∧
        Exhausted block lastUses index := by
  simp only [linearScanOperation]
  cases hr : op.result with
  | none =>
    refine .inl ⟨_, rfl, hs.pass hop hr, ?_⟩
    rintro ⟨⟨v, other, hother, hv⟩, -⟩
    obtain rfl : op = other := by simpa [hop] using hother
    simp [hr] at hv
  | some r =>
    have hdef : DefinedAt block r index := ⟨op, hop, hr⟩
    cases hslot : (state.1.map fun value => value.filter fun v => index ≤ lastUses v).findIdx?
        Option.isNone with
    | none => exact .inr ⟨⟨_, rfl⟩, hs.holds.exhausted hdef hslot⟩
    | some slot =>
      obtain ⟨hlt, hnone, -⟩ := List.findIdx?_eq_some_iff_getElem.mp hslot
      have hfree := List.getElem?_eq_getElem hlt
      rw [Option.isNone_iff_eq_none.mp hnone] at hfree
      exact .inl ⟨_, rfl, hs.take h hdef hfree, hs.holds.not_exhausted hfree⟩

end

theorem scanned_start (lastUses : ValueId → Nat) :
    Scanned block lastUses 0 (List.replicate 8 none, fun _ => none) := by
  have hnot {v : ValueId} : ¬DefinedBefore block v 0 := by
    rintro ⟨d, hd, -⟩
    cases hd
  have hempty {slot : Nat} {v : ValueId} :
      ((List.replicate 8 (none : Option ValueId)).map fun value =>
        value.filter fun v => 0 ≤ lastUses v)[slot]? ≠ some (some v) := by
    rw [List.getElem?_map, List.getElem?_replicate]
    split <;> simp
  exact ⟨⟨by simp, fun hv => absurd hv hempty, fun hv => absurd hv hnot⟩,
    fun hv => absurd hv hnot, fun hv => (by cases hv), fun hv => (by cases hv)⟩

/-- The whole scan. -/
theorem scan_spec (h : block.Verified) (lastUses : ValueId → Nat) :
    (∃ state, block.operations.zipIdx.foldlM (linearScanOperation lastUses)
        (List.replicate 8 none, fun _ => none) = .ok state ∧
        Scanned block lastUses block.operations.length state ∧
        ∀ index < block.operations.length, ¬Exhausted block lastUses index) ∨
      (∃ e, block.operations.zipIdx.foldlM (linearScanOperation lastUses)
        (List.replicate 8 none, fun _ => none) = .error e) ∧
        ∃ index, Exhausted block lastUses index := by
  refine foldlM_zipIdx_induction
    (P := fun i state => Scanned block lastUses i state ∧
      ∀ index < i, ¬Exhausted block lastUses index) (fun i op state hop hs => ?_)
    ⟨scanned_start lastUses, fun index hlt => absurd hlt (Nat.not_lt_zero _)⟩
  rcases linearScanOperation_spec h hs.1 hop with ⟨state', hok, hs', hnot⟩ | ⟨herror, hexhausted⟩
  · refine .inl ⟨state', hok, hs', fun index hlt => ?_⟩
    rcases Nat.lt_succ_iff_lt_or_eq.mp hlt with hlt | rfl
    · exact hs.2 index hlt
    · exact hnot
  · exact .inr ⟨herror, i, hexhausted⟩

/-! ## Registers that are not shared -/

theorem le_lastUses_iff (h : block.Verified) {v : ValueId} {d index : Nat}
    (hd : DefinedAt block v d) :
    index ≤ settings.lastUses block v ↔ ∃ i, LiveUntil settings block v i ∧ index ≤ i := by
  obtain ⟨hmem, hupper⟩ := lastUses_isGreatest settings h hd
  exact ⟨fun hle => ⟨_, hmem, hle⟩, fun ⟨i, hi, hle⟩ => hle.trans (hupper hi)⟩

theorem sharedTime_iff (h : block.Verified) {v w : ValueId} :
    SharedTime block (settings.lastUses block) v w ↔ Overlap settings block v w := by
  constructor
  · rintro ⟨d, e, hd, he, hdw, hev⟩
    exact ⟨d, e, hd, he, (le_lastUses_iff h he).mp hdw, (le_lastUses_iff h hd).mp hev⟩
  · rintro ⟨d, e, hd, he, hdw, hev⟩
    exact ⟨d, e, hd, he, (le_lastUses_iff h he).mpr hdw, (le_lastUses_iff h hd).mpr hev⟩

theorem exhausted_iff (h : block.Verified) {index : Nat} :
    Exhausted block (settings.lastUses block) index ↔ Crowded settings block index := by
  constructor
  · rintro ⟨hr, live, hcard, hlive⟩
    refine ⟨hr, live, hcard, fun v hv => ?_⟩
    obtain ⟨⟨d, hd, hdef⟩, hle⟩ := hlive v hv
    exact ⟨⟨d, hd, hdef⟩, (le_lastUses_iff h hdef).mp hle⟩
  · rintro ⟨hr, live, hcard, hlive⟩
    refine ⟨hr, live, hcard, fun v hv => ?_⟩
    obtain ⟨⟨d, hd, hdef⟩, hle⟩ := hlive v hv
    exact ⟨⟨d, hd, hdef⟩, (le_lastUses_iff h hdef).mpr hle⟩

theorem result_lt_of_verifyFrom {n : Nat} {op : Operation} {r : ValueId}
    (hr : op.result = some r) : ∀ {ops : List Operation} {defined : ValueId → Bool}
    {sawExit : Bool}, verifyFrom n ops defined sawExit = [] → op ∈ ops → r < n
  | first :: ops, defined, sawExit, h, hop => by
    obtain ⟨-, -, hresult, hrest⟩ := verifyFrom_cons h
    rcases List.mem_cons.mp hop with rfl | hop
    · exact (hresult r hr).1
    · exact result_lt_of_verifyFrom hr hrest hop

/-- What the check of the values rejects in an accepted block. -/
theorem namesForeignValue_iff (h : block.Verified) :
    (block.operations.any fun op =>
      (op.result.toList ++ operandValues op).any (block.valueCount ≤ ·)) = true ↔
      NamesForeignValue block := by
  simp only [List.any_eq_true, List.mem_append, Option.mem_toList, decide_eq_true_eq]
  constructor
  · rintro ⟨op, hop, v, hv | hv, hle⟩
    · have hlt : v < block.valueCount := result_lt_of_verifyFrom hv h hop
      exact absurd hle (Nat.not_le.mpr hlt)
    · exact ⟨op, hop, v, hv, hle⟩
  · rintro ⟨op, hop, v, hv, hle⟩
    exact ⟨op, hop, v, .inr hv, hle⟩

/-- What the allocation returns for an accepted block. -/
theorem allocateHostRegisters_cases (settings : ScanSettings) (h : block.Verified) :
    (∃ state, settings.allocateHostRegisters block = .ok state.2 ∧
        Scanned block (settings.lastUses block) block.operations.length state ∧
        ¬NamesForeignValue block ∧ ∀ index, ¬Crowded settings block index) ∨
      (∃ e, settings.allocateHostRegisters block = .error e) ∧
        (NamesForeignValue block ∨ ∃ index, Crowded settings block index) := by
  unfold ScanSettings.allocateHostRegisters
  by_cases hforeign : NamesForeignValue block
  · rw [if_pos ((namesForeignValue_iff h).mpr hforeign)]
    exact .inr ⟨⟨_, rfl⟩, .inl hforeign⟩
  · rw [if_neg fun hc => hforeign ((namesForeignValue_iff h).mp hc)]
    rcases scan_spec h (settings.lastUses block) with ⟨state, hok, hs, hnot⟩ | ⟨⟨e, he⟩, index, hi⟩
    · -- Every result has been given a register, so the last check passes.
      have hgiven : ¬(block.operations.any fun op =>
          op.result.any fun r => (state.2 r).isNone) = true := by
        intro hmissing
        obtain ⟨op, hop, hmissing⟩ := List.any_eq_true.mp hmissing
        obtain ⟨r, hr, hnone⟩ := (Option.any_eq_true ..).mp hmissing
        obtain ⟨index, hindex⟩ := List.getElem?_of_mem hop
        have hlt := (List.getElem?_eq_some_iff.mp hindex).1
        obtain ⟨slot, -, hslot⟩ := hs.given ⟨index, hlt, op, hindex, hr⟩
        simp [hslot] at hnone
      refine .inl ⟨state, ?_, hs, hforeign, fun index hcrowded => ?_⟩
      · rw [hok]
        simp only [bind, Except.bind]
        rw [if_neg hgiven]
      · obtain ⟨⟨r, op, hop, hr⟩, -⟩ := id hcrowded
        exact hnot index (List.getElem?_eq_some_iff.mp hop).1 ((exhausted_iff h).mpr hcrowded)
    · refine .inr ⟨⟨e, ?_⟩, .inr ⟨index, (exhausted_iff h).mp hi⟩⟩
      rw [he]
      rfl

end

/-- Values whose live ranges overlap are given different registers of the scan. An accepted block
is rejected exactly if an operand field names a value outside the value table, or if at an
operation with a result eight values that are defined before it are still live. -/
theorem allocateHostRegisters_interferenceFree (settings : ScanSettings) (block : Block)
    (h : block.Verified) :
    (∀ assignments, settings.allocateHostRegisters block = .ok assignments →
      ∀ v w, v ≠ w → Overlap settings block v w →
        ∃ r ∈ scanRegisters, ∃ s ∈ scanRegisters,
          assignments v = some r ∧ assignments w = some s ∧ r ≠ s) ∧
    ((∃ e, settings.allocateHostRegisters block = .error e) ↔
      NamesForeignValue block ∨ ∃ index, Crowded settings block index) := by
  rcases allocateHostRegisters_cases settings h with
    ⟨state, hok, hs, hforeign, hcrowded⟩ | ⟨⟨e, he⟩, hreason⟩
  · refine ⟨fun assignments hassignments v w hvw hoverlap => ?_, ?_⟩
    · obtain rfl : state.2 = assignments := by
        rw [hok] at hassignments
        exact Except.ok.inj hassignments
      have hlength {u : ValueId} {d : Nat} (hd : DefinedAt block u d) :
          DefinedBefore block u block.operations.length := by
        obtain ⟨op, hop, hu⟩ := hd
        exact ⟨d, (List.getElem?_eq_some_iff.mp hop).1, op, hop, hu⟩
      obtain ⟨d, e, hd, he, -, -⟩ := id hoverlap
      obtain ⟨a, ha, hva⟩ := hs.given (hlength hd)
      obtain ⟨b, hb, hwb⟩ := hs.given (hlength he)
      refine ⟨_, slotRegister_mem ha, _, slotRegister_mem hb, hva, hwb, fun hab => ?_⟩
      exact hs.apart hva (hab ▸ hwb) hvw ((sharedTime_iff h).mpr hoverlap)
    · refine ⟨fun ⟨e, he⟩ => ?_, fun hreason => ?_⟩
      · rw [hok] at he
        cases he
      · rcases hreason with hf | ⟨index, hi⟩
        · exact absurd hf hforeign
        · exact absurd hi (hcrowded index)
  · refine ⟨fun assignments hassignments => ?_, fun _ => hreason, fun _ => ⟨e, he⟩⟩
    rw [he] at hassignments
    cases hassignments

/-- A constant whose left operand, which its opcode does not read, is not a value of the
block. -/
def foreignOperandBlock : Block where
  start := 0x1000
  operations :=
    [{ opcode := .constant, result := some 0, lhs := some 7 },
     { opcode := .exitBlock, exitKind := .return }]
  valueCount := 1

theorem rejects_foreignOperandBlock :
    foreignOperandBlock.Verified ∧
      (ScanSettings.mk false false none).allocateHostRegisters foreignOperandBlock =
        .error "R1 register allocation saw an out-of-range IR value" ∧
      ¬∃ index, Crowded (.mk false false none) foreignOperandBlock index := by
  refine ⟨by decide, rfl, ?_⟩
  rintro ⟨index, -, live, hcard, hlive⟩
  have hzero : live ⊆ {0} := by
    intro v hv
    obtain ⟨⟨d, -, op, hop, hr⟩, -⟩ := hlive v hv
    have hmem : op ∈ foreignOperandBlock.operations := List.mem_of_getElem? hop
    simp only [foreignOperandBlock, List.mem_cons, List.not_mem_nil, or_false] at hmem
    rcases hmem with rfl | rfl
    · exact Finset.mem_singleton.mpr (Option.some.inj hr).symm
    · cases hr
  have hle := Finset.card_le_card hzero
  rw [Finset.card_singleton] at hle
  omega

/-- The constant and the condition of the loop, with the comparison deferred to the exit. -/
theorem allocateHostRegisters_scanningBlock :
    ∃ assignments,
      (ScanSettings.mk true true (some 5)).allocateHostRegisters scanningBlock = .ok assignments ∧
        ∃ r ∈ scanRegisters, ∃ s ∈ scanRegisters,
          assignments 2 = some r ∧ assignments 4 = some s ∧ r ≠ s := by
  cases hallocated : (ScanSettings.mk true true (some 5)).allocateHostRegisters scanningBlock with
  | error e =>
    have hok : ((ScanSettings.mk true true (some 5)).allocateHostRegisters
      scanningBlock).toOption.isSome = true := by decide
    rw [hallocated] at hok
    cases hok
  | ok assignments =>
    refine ⟨assignments, rfl, ?_⟩
    refine (allocateHostRegisters_interferenceFree (.mk true true (some 5)) scanningBlock
      (by decide)).1 assignments hallocated 2 4 (by decide) ?_
    -- The constant lives to the end for the comparison, the condition is defined on the way.
    exact ⟨3, 6, ⟨_, rfl, rfl⟩, ⟨_, rfl, rfl⟩, ⟨6, .definition ⟨_, rfl, rfl⟩, by decide⟩,
      ⟨8, .exit rfl rfl (by decide), by decide⟩⟩

end Arm64

end Rosa
