import Rosa.Arm64.HelperCalls
import Mathlib.Data.List.ReduceOption

/-!
# Optimized blocks

What `optimizeBlock` keeps beside the meaning of a block. The backend rejects a block that
`verify` does not accept, and it does not save `x8` to `x15` around most of its helper calls, so
a value that is read behind such a call is lost. Both properties are about the names of values :
a dropped read or addition hands the uses of its result over to an earlier value, and the use
must still stand behind the definition and not behind a call.

A call forgets every fact about the guest registers, so a read is forwarded to a value that is
defined behind the last call. The search for an equal addition goes through all operations that
were emitted. It is safe because the operands are the same : they are read here, so they are
not behind a call, and they were read by the addition that is found.
-/

namespace Rosa

namespace Arm64

/-! ## Values behind a call -/

/-- The operation calls a helper and saves no register of a value. -/
def clobbersValues (block : Block) (op : Operation) : Bool :=
  callsHelper op && !savesCallerSaved block op

/-- A value is used after an operation behind its definition whose code calls a helper without
saving `x8` to `x15`. -/
def UsedAcrossCall (block : Block) : Prop :=
  ∃ (v : ValueId) (i j k : Nat) (definition call use : Operation), i < j ∧ j < k ∧
    block.operations[i]? = some definition ∧ definition.result = some v ∧
    block.operations[j]? = some call ∧ clobbersValues block call = true ∧
    block.operations[k]? = some use ∧ v ∈ operandValues use

theorem usedAcrossCall_iff {block : Block} : UsedAcrossCall block ↔
    ∃ j < block.operations.length, (block.operations[j]?).any (clobbersValues block) = true ∧
      ∃ i < j, ∃ k < block.operations.length, j < k ∧
        ((block.operations[i]?).bind Operation.result).any (fun v =>
          (block.operations[k]?).any fun use => (operandValues use).contains v) = true := by
  constructor
  · rintro ⟨v, i, j, k, d, call, use, hij, hjk, hd, hdv, hj, hcall, hk, hv⟩
    exact ⟨j, (List.getElem?_eq_some_iff.mp hj).1, by simpa [hj] using hcall, i, hij, k,
      (List.getElem?_eq_some_iff.mp hk).1, hjk, by simpa [hd, hdv, hk] using hv⟩
  · rintro ⟨j, -, hcall, i, hij, k, -, hjk, huse⟩
    obtain ⟨call, hj, hcall⟩ := (Option.any_eq_true ..).mp hcall
    obtain ⟨v, hd, huse⟩ := (Option.any_eq_true ..).mp huse
    obtain ⟨use, hk, hv⟩ := (Option.any_eq_true ..).mp huse
    obtain ⟨d, hd, hdv⟩ := Option.bind_eq_some_iff.mp hd
    exact ⟨v, i, j, k, d, call, use, hij, hjk, hd, hdv, hj, hcall, hk, by simpa using hv⟩

instance (block : Block) : Decidable (UsedAcrossCall block) :=
  decidable_of_iff _ usedAcrossCall_iff.symm

/-- The operations define the value. -/
def DefinedIn (ops : List Operation) (v : ValueId) : Prop := ∃ d ∈ ops, d.result = some v

/-- The operations define the value and make a call behind its definition. -/
inductive Stale (calls : Operation → Bool) : List Operation → ValueId → Prop
  | before {ops : List Operation} {op : Operation} {v : ValueId} (h : Stale calls ops v) :
      Stale calls (ops ++ [op]) v
  | call {ops : List Operation} {op : Operation} {v : ValueId} (hcall : calls op = true)
      (hd : DefinedIn ops v) : Stale calls (ops ++ [op]) v

/-- No operation of a list reads a value that is stale when it comes to it. -/
def ReadsFresh (calls : Operation → Bool) : List Operation → List Operation → Prop
  | _, [] => True
  | before, op :: ops =>
    (∀ v ∈ operandValues op, ¬Stale calls before v) ∧ ReadsFresh calls (before ++ [op]) ops

theorem definedIn_concat {ops : List Operation} {op : Operation} {v : ValueId} :
    DefinedIn (ops ++ [op]) v ↔ DefinedIn ops v ∨ op.result = some v := by
  simp [DefinedIn, or_and_right, exists_or]

section

variable {calls : Operation → Bool}

theorem stale_concat {ops : List Operation} {op : Operation} {v : ValueId} :
    Stale calls (ops ++ [op]) v ↔ Stale calls ops v ∨ (calls op = true ∧ DefinedIn ops v) := by
  constructor
  · intro h
    generalize hl : ops ++ [op] = l at h
    cases h with
    | before h =>
      obtain ⟨rfl, hop⟩ := List.append_inj' hl rfl
      exact .inl h
    | call hcall hd =>
      obtain ⟨rfl, hop⟩ := List.append_inj' hl rfl
      obtain rfl := List.singleton_inj.mp hop
      exact .inr ⟨hcall, hd⟩
  · rintro (h | ⟨hcall, hd⟩)
    · exact .before h
    · exact .call hcall hd

theorem not_stale_nil {v : ValueId} : ¬Stale calls [] v := by
  intro h
  generalize hl : ([] : List Operation) = l at h
  cases h with
  | before h => simp at hl
  | call hcall hd => simp at hl

theorem Stale.definedIn {ops : List Operation} {v : ValueId} (h : Stale calls ops v) :
    DefinedIn ops v := by
  induction h with
  | before h ih => exact definedIn_concat.mpr (.inl ih)
  | call hcall hd => exact definedIn_concat.mpr (.inl hd)

/-- The places of a stale value and of its call. -/
theorem stale_take_iff {ops : List Operation} {v : ValueId} : ∀ {k : Nat}, k ≤ ops.length →
    (Stale calls (ops.take k) v ↔ ∃ i j definition call, i < j ∧ j < k ∧
      ops[i]? = some definition ∧ definition.result = some v ∧ ops[j]? = some call ∧
      calls call = true)
  | 0, _ => by simp [not_stale_nil]
  | k + 1, hk => by
    have hop : ops[k]? = some ops[k] := List.getElem?_eq_getElem hk
    rw [List.take_add_one, hop, Option.toList_some, stale_concat,
      stale_take_iff (Nat.le_of_succ_le hk)]
    constructor
    · rintro (⟨i, j, d, call, hij, hjk, h⟩ | ⟨hcall, d, hd, hv⟩)
      · exact ⟨i, j, d, call, hij, by omega, h⟩
      · obtain ⟨i, hi, rfl⟩ := List.mem_take_iff_getElem.mp hd
        exact ⟨i, k, _, _, by omega, by omega, List.getElem?_eq_getElem (by omega), hv, hop, hcall⟩
    · rintro ⟨i, j, d, call, hij, hjk, hd, hv, hj, hcall⟩
      rcases Nat.lt_succ_iff_lt_or_eq.mp hjk with hjk | rfl
      · exact .inl ⟨i, j, d, call, hij, hjk, hd, hv, hj, hcall⟩
      · obtain rfl : ops[j] = call := by simpa [hop] using hj
        refine .inr ⟨hcall, d, ?_, hv⟩
        obtain ⟨hi, rfl⟩ := List.getElem?_eq_some_iff.mp hd
        exact List.mem_take_iff_getElem.mpr ⟨i, by omega, rfl⟩

theorem readsFresh_iff : ∀ {before ops : List Operation}, ReadsFresh calls before ops ↔
    ∀ k op, ops[k]? = some op → ∀ v ∈ operandValues op, ¬Stale calls (before ++ ops.take k) v
  | before, [] => by simp [ReadsFresh]
  | before, op :: ops => by
    rw [ReadsFresh, readsFresh_iff]
    constructor
    · rintro ⟨hop, hrest⟩ k op' hk
      cases k with
      | zero =>
        obtain rfl : op = op' := by simpa using hk
        simpa using hop
      | succ k => simpa using hrest k op' (by simpa using hk)
    · intro h
      refine ⟨by simpa using h 0 op rfl, fun k op' hk => ?_⟩
      simpa using h (k + 1) op' (by simpa using hk)

end

theorem not_usedAcrossCall_iff {block : Block} :
    ¬UsedAcrossCall block ↔ ReadsFresh (clobbersValues block) [] block.operations := by
  rw [readsFresh_iff]
  constructor
  · intro h k op hop v hv hstale
    have hk := (List.getElem?_eq_some_iff.mp hop).1.le
    rw [List.nil_append, stale_take_iff hk] at hstale
    obtain ⟨i, j, d, call, hij, hjk, hd, hdv, hj, hcall⟩ := hstale
    exact h ⟨v, i, j, k, d, call, op, hij, hjk, hd, hdv, hj, hcall, hop, hv⟩
  · rintro h ⟨v, i, j, k, d, call, op, hij, hjk, hd, hdv, hj, hcall, hop, hv⟩
    have hk := (List.getElem?_eq_some_iff.mp hop).1.le
    refine h k op hop v hv ?_
    rw [List.nil_append, stale_take_iff hk]
    exact ⟨i, j, d, call, hij, hjk, hd, hdv, hj, hcall⟩

/-! ## Renamed operands -/

theorem operandValues_rename (op : Operation) (f : ValueId → ValueId) :
    operandValues (op.rename f) = (operandValues op).map f :=
  List.reduceOption_map (l := [op.lhs, op.rhs, op.third]) (f := f)

theorem mem_operandValues_of_lhs {op : Operation} {v : ValueId} (h : op.lhs = some v) :
    v ∈ operandValues op := by
  rw [operandValues, List.reduceOption_mem_iff, h]
  exact List.mem_cons_self

section

variable {defined defined' : ValueId → Bool} {f : ValueId → ValueId}

theorem checkUse_rename (hf : ∀ v, defined v = true → defined' (f v) = true)
    {value : Option ValueId} {role : String} (h : checkUse defined value role = []) :
    checkUse defined' (value.map f) role = [] := by
  obtain ⟨v, rfl, hv⟩ := checkUse_eq_nil.mp h
  exact checkUse_eq_nil.mpr ⟨f v, rfl, hf v hv⟩

theorem checkOptionalUse_rename (hf : ∀ v, defined v = true → defined' (f v) = true)
    {value : Option ValueId} {role : String} (h : checkOptionalUse defined value role = []) :
    checkOptionalUse defined' (value.map f) role = [] := by
  refine checkOptionalUse_eq_nil.mpr fun w hw => ?_
  obtain ⟨v, rfl, rfl⟩ := Option.map_eq_some_iff.mp hw
  exact hf v (checkOptionalUse_eq_nil.mp h v rfl)

/-- The check of an operation looks at its operands only to see that they are defined. -/
theorem checkOperation_rename (hf : ∀ v, defined v = true → defined' (f v) = true)
    {op : Operation} (h : checkOperation defined op = []) :
    checkOperation defined' (op.rename f) = [] := by
  have huse {value : Option ValueId} {role : String} (h : checkUse defined value role = []) :
      checkUse defined' (value.map f) role = [] := checkUse_rename hf h
  have hoptional {value : Option ValueId} {role : String}
      (h : checkOptionalUse defined value role = []) :
      checkOptionalUse defined' (value.map f) role = [] := checkOptionalUse_rename hf h
  obtain ⟨opcode, width, guestRip, result, lhs, rhs, third, guestRegister, guestXmmRegister,
    sourceGuestXmmRegister, target, fallthrough, condition, exitKind, immediate⟩ := op
  cases opcode
  case exitBlock =>
    simp only [checkOperation, Operation.rename, List.append_eq_nil_iff, Option.isSome_map] at h ⊢
    obtain ⟨⟨h1, h2⟩, h3⟩ := h
    refine ⟨⟨?_, h2⟩, h3⟩
    split at h1
    · next hcond =>
      rw [if_pos hcond]
      exact huse h1
    · next hcond =>
      rw [if_neg hcond]
      exact h1
  all_goals
    simp only [checkOperation, Operation.rename, List.append_eq_nil_iff, Option.isSome_map] at h ⊢
    try first
    | exact h
    | exact ⟨huse h.1, h.2⟩
    | exact ⟨h.1, hoptional h.2⟩
    | grind

end

/-! ## The names of the pass -/

/-- What the names of the pass keep. `before` are the operations of the block that the pass has
seen, the emitted operations are those of the tracker. -/
structure Names (calls : Operation → Bool) (before : List Operation) (t : Tracker) : Prop where
  emitted : ∀ {v}, DefinedIn t.operations v → DefinedIn before v ∧ t.replacements v = v
  replaced : ∀ {v}, DefinedIn before v → DefinedIn t.operations (t.replacements v)
  fresh : ∀ {v}, ¬DefinedIn before v → t.replacements v = v
  kept : ∀ {v}, DefinedIn before v → ¬Stale calls before v →
    ¬Stale calls t.operations (t.replacements v)
  register : ∀ {r v}, (t.registers r).value = some v →
    DefinedIn t.operations v ∧ ¬Stale calls t.operations v
  sum : ∀ {op a r}, op ∈ t.operations → op.opcode = .add → op.lhs = some a → op.result = some r →
    DefinedIn t.operations a ∧ (Stale calls t.operations r → Stale calls t.operations a)

/-- What the pass needs of the calls : an operation that makes one forgets the registers, and
the names of its operands do not matter. -/
structure ForgetsAtCalls (mode : ForwardMode) (calls : Operation → Bool) : Prop where
  rename : ∀ op f, calls (op.rename f) = calls op
  preserves : ∀ {op}, calls op = true → preservesHostValues mode op = false
  opcode : ∀ {op}, calls op = true → op.opcode ≠ .readGuestReg ∧ op.opcode ≠ .writeGuestReg ∧
    op.opcode ≠ .conditionalMoveGuestReg

section

variable {mode : ForwardMode} {calls : Operation → Bool} {before : List Operation} {t : Tracker}
  {op : Operation}

theorem Names.initial : Names calls [] {} where
  emitted := by simp [DefinedIn]
  replaced := by simp [DefinedIn]
  fresh _ := rfl
  kept := by simp [DefinedIn]
  register := by simp
  sum := by simp

theorem Names.idempotent (h : Names calls before t) (v : ValueId) :
    t.replacements (t.replacements v) = t.replacements v := by
  by_cases hv : DefinedIn before v
  · exact (h.emitted (h.replaced hv)).2
  · rw [h.fresh hv, h.fresh hv]

theorem Names.resolve_eq (h : Names calls before t) (v : ValueId) :
    t.resolve mode v = t.replacements v :=
  Tracker.resolve_eq h.idempotent v

/-- A value that is emitted is its own name. -/
theorem Names.resolve_emitted (h : Names calls before t) {v : ValueId}
    (hv : DefinedIn t.operations v) : t.resolve mode v = v := by
  rw [h.resolve_eq, (h.emitted hv).2]

/-- The name of a value that is not stale is not stale. A field that the opcode does not read
may name a value that is not defined yet. -/
theorem Names.not_stale (h : Names calls before t) {v : ValueId} (hv : ¬Stale calls before v) :
    ¬Stale calls t.operations (t.resolve mode v) := by
  rw [h.resolve_eq]
  by_cases hd : DefinedIn before v
  · exact h.kept hd hv
  · rw [h.fresh hd]
    exact fun hs => hd (h.emitted hs.definedIn).1

/-- The name of a defined value is emitted. -/
theorem Names.definedIn (h : Names calls before t) {v : ValueId} (hd : DefinedIn before v) :
    DefinedIn t.operations (t.resolve mode v) := by
  rw [h.resolve_eq]
  exact h.replaced hd

/-- A new result is not stale behind its operation. -/
theorem not_stale_result {ops : List Operation} {r : ValueId} (hr : ¬DefinedIn ops r) :
    ¬Stale calls (ops ++ [op]) r := by
  rw [stale_concat]
  rintro (hs | ⟨-, hd⟩)
  · exact hr hs.definedIn
  · exact hr hd

/-- Behind an operation without a call the values are as before. -/
theorem not_stale_concat {ops : List Operation} {v : ValueId} (hcalls : calls op = false)
    (hv : ¬Stale calls ops v) : ¬Stale calls (ops ++ [op]) v := by
  rw [stale_concat]
  rintro (hs | ⟨hcall, -⟩)
  · exact hv hs
  · simp [hcalls] at hcall

/-- A fact about a write names the written value. -/
theorem writtenFact_value {old : RegisterFact} {w : Width} {lhs : Option ValueId} {v : ValueId}
    (hv : (t.writtenFact mode old w lhs).value = some v) : lhs = some v := by
  cases lhs with
  | none => cases w <;> cases hv
  | some u =>
    cases w with
    | i64 => exact hv
    | i32 => exact hv
    | i16 => cases hv
    | i8 =>
      simp only [Tracker.writtenFact] at hv
      split at hv
      · exact hv
      · cases hv

/-- The values that the pass knows of the registers after an emitted operation. -/
theorem Names.updateRegisters (h : Names calls before t) (hf : ForgetsAtCalls mode calls)
    (hresult : ∀ r, op.result = some r → ¬DefinedIn t.operations r)
    (hlhs : op.opcode = .writeGuestReg → ∀ v, op.lhs = some v →
      DefinedIn t.operations v ∧ ¬Stale calls t.operations v) {s : Register} {v : ValueId}
    (hv : (t.updateRegisters mode op s).value = some v) :
    DefinedIn (t.operations ++ [op]) v ∧ ¬Stale calls (t.operations ++ [op]) v := by
  have hold (hcalls : calls op = false)
      (hs : DefinedIn t.operations v ∧ ¬Stale calls t.operations v) :
      DefinedIn (t.operations ++ [op]) v ∧ ¬Stale calls (t.operations ++ [op]) v :=
    ⟨definedIn_concat.mpr (.inl hs.1), not_stale_concat hcalls hs.2⟩
  have hcalls (hop : op.opcode = .readGuestReg ∨ op.opcode = .writeGuestReg ∨
      op.opcode = .conditionalMoveGuestReg ∨ preservesHostValues mode op = true) :
      calls op = false := by
    by_contra hcall
    rw [Bool.not_eq_false] at hcall
    obtain ⟨h1, h2, h3⟩ := hf.opcode hcall
    have := hf.preserves hcall
    simp_all
  revert hv
  fun_cases Tracker.updateRegisters mode t op with
  | case1 r hreg hop hw =>
    intro hv
    rw [Function.update_apply] at hv
    split at hv
    · exact ⟨definedIn_concat.mpr (.inr hv), not_stale_result (hresult v hv)⟩
    · exact hold (hcalls (.inl hop)) (h.register hv)
  | case2 r hreg hop hw => exact fun hv => hold (hcalls (.inl hop)) (h.register hv)
  | case3 r hreg hop =>
    intro hv
    rw [Function.update_apply] at hv
    split at hv
    · exact hold (hcalls (.inr (.inl hop))) (hlhs hop v (writtenFact_value hv))
    · exact hold (hcalls (.inr (.inl hop))) (h.register hv)
  | case4 r hreg hop =>
    intro hv
    rw [Function.update_apply] at hv
    split at hv
    · cases hv
    · exact hold (hcalls (.inr (.inr (.inl hop)))) (h.register hv)
  | case5 hp hread hwrite hmove =>
    exact fun hv => hold (hcalls (.inr (.inr (.inr hp)))) (h.register hv)
  | case6 => exact fun hv => by cases hv

/-- An emitted operation. -/
theorem Names.emit (h : Names calls before t) (hf : ForgetsAtCalls mode calls)
    (hresult : ∀ r, op.result = some r → ¬DefinedIn before r)
    (hreads : ∀ v ∈ operandValues op, ¬Stale calls before v)
    (hlhs : op.opcode = .writeGuestReg ∨ op.opcode = .add → ∀ v, op.lhs = some v →
      DefinedIn before v) :
    Names calls (before ++ [op]) (t.emit mode (t.canonicalize mode op)) := by
  have hnew {r : ValueId} (hr : op.result = some r) : ¬DefinedIn t.operations r :=
    fun hd => hresult r hr (h.emitted hd).1
  have hcalls : calls (t.canonicalize mode op) = calls op := hf.rename op _
  have hoperand (hop : op.opcode = .writeGuestReg ∨ op.opcode = .add) {v : ValueId}
      (hv : (t.canonicalize mode op).lhs = some v) :
      DefinedIn t.operations v ∧ ¬Stale calls t.operations v := by
    obtain ⟨u, hu, rfl⟩ := Option.map_eq_some_iff.mp hv
    exact ⟨h.definedIn (hlhs hop u hu), h.not_stale (hreads u (mem_operandValues_of_lhs hu))⟩
  refine ⟨fun hv => ?_, fun {v} hv => ?_, fun {v} hv => ?_, fun {v} hv hs => ?_,
    fun {s v} hv => ?_, fun {c a r} hc hadd ha hr => ?_⟩
  all_goals simp only [Tracker.emit_operations, Tracker.emit_replacements] at *
  · rcases definedIn_concat.mp hv with hv | hv
    · obtain ⟨hd, hrep⟩ := h.emitted hv
      exact ⟨definedIn_concat.mpr (.inl hd), hrep⟩
    · exact ⟨definedIn_concat.mpr (.inr hv), h.fresh (hresult _ hv)⟩
  · rcases definedIn_concat.mp hv with hv | hv
    · exact definedIn_concat.mpr (.inl (h.replaced hv))
    · rw [h.fresh (hresult v hv)]
      exact definedIn_concat.mpr (.inr hv)
  · exact h.fresh fun hd => hv (definedIn_concat.mpr (.inl hd))
  · rcases definedIn_concat.mp hv with hd | hr
    · rw [stale_concat, not_or, not_and] at hs
      have hquiet : calls op = false := by
        by_contra hcall
        exact hs.2 (by simpa using hcall) hd
      exact not_stale_concat (hcalls.trans hquiet) (h.kept hd hs.1)
    · rw [h.fresh (hresult v hr)]
      exact not_stale_result (hnew hr)
  · rw [Tracker.emit_registers] at hv
    have hresult' (r : ValueId) (hr : (t.canonicalize mode op).result = some r) :
        ¬DefinedIn t.operations r := hnew hr
    have hlhs' (hop : (t.canonicalize mode op).opcode = .writeGuestReg) (u : ValueId)
        (hu : (t.canonicalize mode op).lhs = some u) :
        DefinedIn t.operations u ∧ ¬Stale calls t.operations u := hoperand (.inl hop) hu
    exact h.updateRegisters hf hresult' hlhs' hv
  · rcases List.mem_append.mp hc with hc | hc
    · obtain ⟨hda, hstale⟩ := h.sum hc hadd ha hr
      refine ⟨definedIn_concat.mpr (.inl hda), fun hs => ?_⟩
      rcases stale_concat.mp hs with hs | ⟨hcall, -⟩
      · exact .before (hstale hs)
      · exact .call hcall hda
    · obtain rfl := List.mem_singleton.mp hc
      refine ⟨definedIn_concat.mpr (.inl (hoperand (.inr hadd) ha).1), fun hs => ?_⟩
      exact absurd hs (not_stale_result (hnew hr))

/-- The value that takes the place of a dropped result. -/
theorem Names.replacementFor (h : Names calls before t)
    (hreads : ∀ v ∈ operandValues op, ¬Stale calls before v)
    (hlhs : op.opcode = .add → ∃ v, op.lhs = some v ∧ DefinedIn before v) {source : ValueId}
    (hs : t.replacementFor mode (t.canonicalize mode op) = some source) :
    (op.opcode = .add ∨ op.opcode = .readGuestReg) ∧ DefinedIn t.operations source ∧
      ¬Stale calls t.operations source := by
  unfold Tracker.replacementFor at hs
  dsimp only at hs
  split at hs
  · next source' hreused =>
    cases hs
    split at hreused
    · next hc =>
      simp only [Bool.and_eq_true, beq_iff_eq] at hc
      obtain ⟨c, hc', rfl⟩ := Option.map_eq_some_iff.mp hreused
      obtain ⟨candidate, hfind, hcr⟩ := Option.bind_eq_some_iff.mp hc'
      have hmem := List.mem_of_find?_eq_some hfind
      have hsame := List.find?_some hfind
      simp only [Bool.and_eq_true, beq_iff_eq] at hsame
      obtain ⟨⟨⟨⟨⟨⟨-, hop'⟩, -⟩, hl⟩, -⟩, -⟩, -⟩ := hsame
      obtain ⟨u, hu, hd⟩ := hlhs hc.2
      have hcl : candidate.lhs = some (t.resolve mode u) := by
        rw [hl]
        simp [Tracker.canonicalize, Operation.rename, hu]
      have hdc : DefinedIn t.operations c := ⟨candidate, hmem, hcr⟩
      -- The operand is read here, so it is not stale, and the sum was made behind it.
      have hoperand : ¬Stale calls t.operations (t.resolve mode u) :=
        h.not_stale (hreads u (mem_operandValues_of_lhs hu))
      rw [h.resolve_emitted hdc]
      exact ⟨.inl hc.2, hdc, fun hs => hoperand ((h.sum hmem (hop'.trans hc.2) hcl hcr).2 hs)⟩
    · cases hreused
  · split at hs
    · next r hop hreg =>
      split at hs
      · obtain ⟨v, hv, rfl⟩ := Option.map_eq_some_iff.mp hs
        obtain ⟨hdv, hfreshv⟩ := h.register hv
        rw [h.resolve_emitted hdv]
        exact ⟨.inr hop, hdv, hfreshv⟩
      · cases hs
    · cases hs

/-- A dropped operation. -/
theorem Names.drop (h : Names calls before t) {op' : Operation} {r source : ValueId}
    (hresult : op.result = some r) (hnew : ¬DefinedIn before r)
    (hsource : DefinedIn t.operations source) (hfresh : ¬Stale calls t.operations source) :
    Names calls (before ++ [op]) (t.drop op' r source) := by
  have hiff {v : ValueId} : DefinedIn (before ++ [op]) v ↔ DefinedIn before v ∨ v = r := by
    rw [definedIn_concat, hresult, Option.some.injEq]
    exact or_congr_right eq_comm
  have hne {v : ValueId} (hv : DefinedIn before v) : v ≠ r := by
    rintro rfl
    exact hnew hv
  refine ⟨fun {v} hv => ?_, fun {v} hv => ?_, fun {v} hv => ?_, fun {v} hv hs => ?_,
    fun {s v} hv => ?_, fun {c a q} hc hadd ha hq => ?_⟩
  all_goals
    simp only [Tracker.drop_operations, Tracker.drop_replacements, Tracker.drop_registers] at *
  · obtain ⟨hd, hrep⟩ := h.emitted hv
    exact ⟨hiff.mpr (.inl hd), by rw [Function.update_of_ne (hne hd), hrep]⟩
  · rw [Function.update_apply]
    split
    · exact hsource
    · next hvr => exact h.replaced ((hiff.mp hv).resolve_right hvr)
  · have hvr : v ≠ r := fun he => hv (hiff.mpr (.inr he))
    rw [Function.update_of_ne hvr]
    exact h.fresh fun hd => hv (hiff.mpr (.inl hd))
  · rw [Function.update_apply]
    split
    · exact hfresh
    · next hvr =>
      refine h.kept ((hiff.mp hv).resolve_right hvr) fun hstale => ?_
      exact hs (.before hstale)
  · exact h.register hv
  · exact h.sum hc hadd ha hq

/-- The operands of an addition and the source of a register write are defined. -/
theorem lhs_defined {defined : ValueId → Bool} (hcheck : checkOperation defined op = [])
    (hop : op.opcode = .writeGuestReg ∨ op.opcode = .add) :
    ∃ v, op.lhs = some v ∧ defined v = true := by
  rcases hop with hop | hop <;>
    simp only [checkOperation, hop, List.append_eq_nil_iff, checkUse_eq_nil] at hcheck <;>
    exact hcheck.1

/-- The emitted operations are accepted and read no stale value. -/
theorem forwardFrom_keeps (hf : ForgetsAtCalls mode calls) {n : Nat} :
    ∀ (ops : List Operation) {before : List Operation} {t : Tracker}
      {defined defined' : ValueId → Bool} {sawExit : Bool},
      (∀ v, defined v = true ↔ DefinedIn before v) →
      (∀ v, defined' v = true ↔ DefinedIn t.operations v) → Names calls before t →
      verifyFrom n ops defined sawExit = [] → ReadsFresh calls before ops →
      verifyFrom n (forwardFrom mode t ops) defined' sawExit = [] ∧
        ReadsFresh calls t.operations (forwardFrom mode t ops)
  | [], _, _, _, _, _, _, _, _, hv, _ => ⟨hv, trivial⟩
  | op :: ops, before, t, defined, defined', sawExit, hdefined, hdefined', h, hv, hreads => by
    obtain ⟨hexit, hcheck, hresult, hrest⟩ := verifyFrom_cons hv
    obtain ⟨hnow, hlater⟩ := hreads
    have hnew {r : ValueId} (hr : op.result = some r) : ¬DefinedIn before r := by
      rw [← hdefined, (hresult r hr).2]
      simp
    have hnext (v : ValueId) :
        define n defined op.result v = true ↔ DefinedIn (before ++ [op]) v := by
      rw [define_iff (fun r hr => (hresult r hr).1), hdefined, definedIn_concat]
    rw [forwardFrom]
    split
    · next r source hr hsource =>
      have hr' : op.result = some r := hr
      obtain ⟨hop, hds, hfresh⟩ := h.replacementFor hnow (fun hadd => by
        obtain ⟨u, hu, hd⟩ := lhs_defined hcheck (.inr hadd)
        exact ⟨u, hu, (hdefined u).mp hd⟩) hsource
      have hnotExit : (sawExit || op.opcode == .exitBlock) = sawExit := by
        rcases hop with hop | hop <;> simp [hop]
      rw [hnotExit] at hrest
      have hdropped : Names calls (before ++ [op]) (t.drop (t.canonicalize mode op) r source) :=
        h.drop hr' (hnew hr') hds hfresh
      have hkeep := forwardFrom_keeps hf ops hnext
        (fun v => by rw [Tracker.drop_operations]; exact hdefined' v) hdropped hrest hlater
      rwa [Tracker.drop_operations] at hkeep
    · have hemit := h.emit hf (fun r hr => hnew hr) hnow (fun hop v hlv => by
        obtain ⟨u, hu, hd⟩ := lhs_defined hcheck hop
        obtain rfl : u = v := by simpa [hu] using hlv
        exact (hdefined u).mp hd)
      have hcheck' : checkOperation defined' (t.canonicalize mode op) = [] := by
        refine checkOperation_rename (fun v hdv => (hdefined' _).mpr ?_) hcheck
        rw [h.resolve_eq]
        exact h.replaced ((hdefined v).mp hdv)
      have hresult' (r : ValueId) (hr : (t.canonicalize mode op).result = some r) :
          r < n ∧ defined' r = false := by
        refine ⟨(hresult r hr).1, ?_⟩
        by_contra hd
        exact hnew hr (h.emitted ((hdefined' r).mp (by simpa using hd))).1
      have hdefined'' (v : ValueId) : define n defined' (t.canonicalize mode op).result v = true ↔
          DefinedIn (t.emit mode (t.canonicalize mode op)).operations v := by
        rw [define_iff (fun r hr => (hresult' r hr).1), hdefined', Tracker.emit_operations,
          definedIn_concat]
      have hkeep := forwardFrom_keeps hf ops hnext hdefined'' hemit hrest hlater
      rw [Tracker.emit_operations] at hkeep
      refine ⟨?_, fun v hvm => ?_, hkeep.2⟩
      · simp only [verifyFrom, List.append_eq_nil_iff]
        exact ⟨⟨⟨by simp [hexit], hcheck'⟩, checkResult_eq_nil.mpr hresult'⟩, hkeep.1⟩
      · rw [Tracker.canonicalize, operandValues_rename] at hvm
        obtain ⟨u, hu, rfl⟩ := List.mem_map.mp hvm
        exact h.not_stale (hnow u hu)

/-! ## Whole blocks -/

/-- A dropped operation is an addition or a read. -/
theorem opcode_of_replacementFor {source : ValueId} (h : t.replacementFor mode op = some source) :
    op.opcode = .add ∨ op.opcode = .readGuestReg := by
  unfold Tracker.replacementFor at h
  dsimp only at h
  split at h
  · next hreused =>
    split at hreused
    · next hc =>
      simp only [Bool.and_eq_true, beq_iff_eq] at hc
      exact .inl hc.2
    · cases hreused
  · split at h
    · next hop hreg => exact .inr hop
    · cases h

/-- A property of the operations that does not look at operands, additions and reads. -/
theorem any_forwardFrom (mode : ForwardMode) (p : Operation → Bool)
    (hrename : ∀ op f, p (op.rename f) = p op)
    (hdrop : ∀ op, op.opcode = .add ∨ op.opcode = .readGuestReg → p op = false) :
    ∀ (ops : List Operation) (t : Tracker), (forwardFrom mode t ops).any p = ops.any p
  | [], _ => rfl
  | op :: ops, t => by
    rw [forwardFrom, List.any_cons]
    split
    · next r source hr hsource =>
      have hop : (t.canonicalize mode op).opcode = .add ∨
          (t.canonicalize mode op).opcode = .readGuestReg := opcode_of_replacementFor hsource
      rw [hdrop op hop, Bool.false_or]
      exact any_forwardFrom mode p hrename hdrop ops _
    · rw [List.any_cons, any_forwardFrom mode p hrename hdrop ops]
      exact congrArg (· || ops.any p) (hrename op _)

end

theorem any_optimizeBlock (block : Block) (p : Operation → Bool)
    (hrename : ∀ op f, p (op.rename f) = p op)
    (hdrop : ∀ op, op.opcode = .add ∨ op.opcode = .readGuestReg → p op = false) :
    (optimizeBlock block).operations.any p = block.operations.any p :=
  any_forwardFrom _ p hrename hdrop block.operations {}

/-- The optimizer keeps the loop of a block. -/
theorem hasInternalSelfEdge_optimizeBlock (block : Block) :
    hasInternalSelfEdge (optimizeBlock block) = hasInternalSelfEdge block := by
  unfold hasInternalSelfEdge
  rw [List.all_eq_not_any_not, List.all_eq_not_any_not,
    any_optimizeBlock block (fun op => !isSafelyRepeatableOperation op) (fun op f => rfl)
      (by rintro op (hop | hop) <;> simp [isSafelyRepeatableOperation, hop])]
  exact congrArg _ (any_optimizeBlock block _ (fun op f => rfl)
    (by rintro op (hop | hop) <;> simp [hop]))

/-- The optimizer keeps which calls save the registers of the values. -/
theorem savesCallerSaved_optimizeBlock (block : Block) :
    savesCallerSaved (optimizeBlock block) = savesCallerSaved block := by
  have hread : pinsDirectRead (optimizeBlock block) = pinsDirectRead block := by
    unfold pinsDirectRead
    rw [hasInternalSelfEdge_optimizeBlock, any_optimizeBlock block _ (fun op f => rfl)
      (by rintro op (hop | hop) <;> simp [hop])]
  have hwrite : pinsDirectWrite (optimizeBlock block) = pinsDirectWrite block := by
    unfold pinsDirectWrite
    rw [hread, hasInternalSelfEdge_optimizeBlock, any_optimizeBlock block _ (fun op f => rfl)
      (by rintro op (hop | hop) <;> simp [hop])]
  funext op
  unfold savesCallerSaved
  rw [hread, hwrite]

/-- A call that saves nothing is an operation at which the pass forgets the registers. -/
theorem forgetsAtCalls (block : Block) :
    ForgetsAtCalls (.of block (hasInternalSelfEdge block)) (clobbersValues block) where
  rename op f := rfl
  preserves := by
    intro op hcall
    simp only [clobbersValues, Bool.and_eq_true, Bool.not_eq_true'] at hcall
    obtain ⟨hcalls, hsaves⟩ := hcall
    have hloads : (ForwardMode.of block (hasInternalSelfEdge block)).acrossLoads =
        pinsDirectRead block := rfl
    have hstores : (ForwardMode.of block (hasInternalSelfEdge block)).acrossStores =
        pinsDirectWrite block := rfl
    by_contra hpreserves
    rw [Bool.not_eq_false] at hpreserves
    unfold preservesHostValues at hpreserves
    -- The accesses that keep the values are those that save their registers.
    split at hpreserves
    case h_22 hop =>
      rw [hloads, Bool.and_eq_true, beq_iff_eq] at hpreserves
      simp [savesCallerSaved, hop, hpreserves.1, hpreserves.2] at hsaves
    case h_23 hop =>
      rw [hstores, Bool.and_eq_true, beq_iff_eq] at hpreserves
      simp [savesCallerSaved, hop, hpreserves.1, hpreserves.2] at hsaves
    case h_24 => cases hpreserves
    all_goals
      next hop => simp_all [callsHelper, Opcode.kind]
  opcode := by
    intro op hcall
    simp only [clobbersValues, Bool.and_eq_true] at hcall
    refine ⟨fun hop => ?_, fun hop => ?_, fun hop => ?_⟩ <;>
      simp [callsHelper, hop, Opcode.kind] at hcall

/-- A loop that scans bytes and counts. The second sum is made before the flag helper is called
and is dropped, the third is made behind the call and stays. -/
def countingBlock : Block where
  start := 0x1000
  operations :=
    [{ opcode := .readGuestReg, result := some 0, guestRegister := some .rsi },
     { opcode := .readGuestReg, result := some 1, guestRegister := some .rdi },
     { opcode := .add, result := some 2, lhs := some 0, rhs := some 1 },
     { opcode := .loadGuest, width := .i8, result := some 3, lhs := some 2 },
     { opcode := .add, result := some 4, lhs := some 0, rhs := some 1 },
     { opcode := .updateIncFlags, lhs := some 0, rhs := some 4 },
     { opcode := .readGuestReg, result := some 5, guestRegister := some .rsi },
     { opcode := .readGuestReg, result := some 6, guestRegister := some .rdi },
     { opcode := .add, result := some 7, lhs := some 5, rhs := some 6 },
     { opcode := .writeGuestReg, lhs := some 7, guestRegister := some .rsi },
     { opcode := .exitBlock, exitKind := .conditional, condition := some .notEqual,
       target := some 0x1000, fallthrough := some 0x1020 }]
  valueCount := 8

end Arm64

end Rosa
