import Rosa.IR.Semantics

/-!
# Definitions of a verified block

What `verify` gives about the values of a block : each is defined by one operation, which
stands before every operation that reads it. Along a run the value then stays what its
definition computed. `runTo` is the run up to a point of the block.
-/

namespace Rosa

variable {M E : Type}

/-! ## Runs up to an operation -/

/-- The state after the operations, if none of them ends the block. -/
def runTo (rt : Runtime M E) : List Operation → Machine M → Option (Machine M)
  | [], m => some m
  | op :: ops, m =>
    match step rt op m with
    | .next m' => runTo rt ops m'
    | .done _ => none

theorem runTo_append {rt : Runtime M E} : ∀ {ops rest : List Operation} {m n : Machine M},
    runTo rt (ops ++ rest) m = some n →
    ∃ m', runTo rt ops m = some m' ∧ runTo rt rest m' = some n
  | [], _, m, _, h => ⟨m, rfl, h⟩
  | op :: ops, rest, m, n, h => by
    simp only [List.cons_append, runTo] at h
    split at h
    · next m' hs =>
      obtain ⟨a, h1, h2⟩ := runTo_append h
      exact ⟨a, by simpa only [runTo, hs] using h1, h2⟩
    · cases h

theorem runTo_append_of {rt : Runtime M E} : ∀ {ops rest : List Operation} {m n : Machine M},
    runTo rt ops m = some n → runTo rt (ops ++ rest) m = runTo rt rest n
  | [], _, m, n, h => by
    obtain rfl : m = n := by simpa [runTo] using h
    rfl
  | op :: ops, rest, m, n, h => by
    simp only [List.cons_append, runTo] at h ⊢
    split at h
    · exact runTo_append_of h
    · cases h

/-- The run up to the next operation. -/
theorem runTo_take_succ {rt : Runtime M E} {ops : List Operation} {i : Nat} {op : Operation}
    {m n : Machine M} (hop : ops[i]? = some op) (h : runTo rt (ops.take i) m = some n) :
    runTo rt (ops.take (i + 1)) m =
      match step rt op n with
      | .next n' => some n'
      | .done _ => none := by
  rw [List.take_add_one, hop, Option.toList_some, runTo_append_of h]
  rfl

theorem runTo_take_succ_none {rt : Runtime M E} {ops : List Operation} {i : Nat}
    {m : Machine M} (h : runTo rt (ops.take i) m = none) :
    runTo rt (ops.take (i + 1)) m = none := by
  cases hnext : runTo rt (ops.take (i + 1)) m with
  | none => rfl
  | some n =>
    rw [List.take_add_one] at hnext
    obtain ⟨n', hn', -⟩ := runTo_append hnext
    simp [h] at hn'

theorem runTo_singleton {rt : Runtime M E} {op : Operation} {m n : Machine M}
    (h : runTo rt [op] m = some n) : Steps rt op m n := by
  simp only [runTo] at h
  split at h
  · next m' hs =>
    obtain rfl : m' = n := by simpa using h
    exact .of_step hs
  · cases h

/-- An invariant of the position : it holds at the start and every operation keeps it. -/
theorem runTo_induction {rt : Runtime M E} {ops : List Operation} {P : Nat → Machine M → Prop}
    {m n : Machine M} (h0 : P 0 m)
    (hstep : ∀ i op a b, ops[i]? = some op → runTo rt (ops.take i) m = some a →
      Steps rt op a b → P i a → P (i + 1) b) :
    ∀ {index : Nat}, index ≤ ops.length → runTo rt (ops.take index) m = some n → P index n
  | 0, _, h => by
    obtain rfl : m = n := by simpa [runTo] using h
    exact h0
  | index + 1, hle, h => by
    have hget : ops[index]? = some ops[index] := List.getElem?_eq_getElem hle
    rw [List.take_add_one, hget] at h
    obtain ⟨m', h1, h2⟩ := runTo_append h
    exact hstep index _ m' n hget h1 (runTo_singleton h2)
      (runTo_induction h0 hstep (Nat.le_of_succ_le hle) h1)

/-- Only the result of an operation changes. -/
theorem Steps.values_of_ne {rt : Runtime M E} {op : Operation} {m n : Machine M}
    (h : Steps rt op m n) {v : ValueId} (hv : op.result ≠ some v) : n.values v = m.values v := by
  cases h with
  | value hk hr =>
    have : v ≠ _ := fun he => hv (he ▸ hr)
    simp [this]
  | load hk hr =>
    have : v ≠ _ := fun he => hv (he ▸ hr)
    simp [this]
  | _ => rfl

/-! ## Definitions -/

/-- The operation that defines a value, the last one if there are several. -/
def Block.definingOperation (block : Block) (v : ValueId) : Option Operation :=
  block.operations.reverse.find? fun op => op.result = some v

/-- What `verify` knows when it comes to an operation. -/
theorem verifyFrom_append {n : Nat} : ∀ {before rest : List Operation} {defined : ValueId → Bool}
    {sawExit : Bool}, verifyFrom n (before ++ rest) defined sawExit = [] →
    ∃ defined' sawExit', verifyFrom n rest defined' sawExit' = [] ∧
      ∀ v, defined' v = true ↔ defined v = true ∨ ∃ d ∈ before, d.result = some v
  | [], _, defined, sawExit, h => ⟨defined, sawExit, h, by simp⟩
  | op :: before, rest, defined, sawExit, h => by
    obtain ⟨-, -, hresult, hrest⟩ := verifyFrom_cons h
    obtain ⟨defined', sawExit', h', hiff⟩ := verifyFrom_append hrest
    refine ⟨defined', sawExit', h', fun v => ?_⟩
    rw [hiff v, define_iff (fun r hr => (hresult r hr).1)]
    simp [or_assoc]

theorem Block.Verified.at_index {block : Block} (h : block.Verified) {i : Nat} {op : Operation}
    (hop : block.operations[i]? = some op) : ∃ defined : ValueId → Bool,
      checkOperation defined op = [] ∧ (∀ r, op.result = some r → defined r = false) ∧
        ∀ v, defined v = true ↔ ∃ j < i, ∃ d, block.operations[j]? = some d ∧ d.result = some v := by
  obtain ⟨hlt, rfl⟩ := List.getElem?_eq_some_iff.mp hop
  have hsplit : block.operations =
      block.operations.take i ++ block.operations[i] :: block.operations.drop (i + 1) := by
    rw [← List.drop_eq_getElem_cons hlt, List.take_append_drop]
  unfold Block.Verified verify at h
  rw [hsplit] at h
  obtain ⟨defined, sawExit, h', hiff⟩ := verifyFrom_append h
  obtain ⟨-, hcheck, hresult, -⟩ := verifyFrom_cons h'
  refine ⟨defined, hcheck, fun r hr => (hresult r hr).2, fun v => ?_⟩
  rw [hiff v]
  simp only [Bool.false_eq_true, false_or, List.mem_take_iff_getElem]
  constructor
  · rintro ⟨d, ⟨j, hj, rfl⟩, hd⟩
    exact ⟨j, by omega, _, List.getElem?_eq_getElem (by omega), hd⟩
  · rintro ⟨j, hj, d, hd, hv⟩
    obtain ⟨hjlt, rfl⟩ := List.getElem?_eq_some_iff.mp hd
    exact ⟨_, ⟨j, by omega, rfl⟩, hv⟩

/-- The source of a register write is defined before it. -/
theorem Block.Verified.writeSource_defined {block : Block} (h : block.Verified) {i : Nat}
    {op : Operation} {source : ValueId} (hop : block.operations[i]? = some op)
    (hwrite : op.opcode = .writeGuestReg) (hl : op.lhs = some source) :
    ∃ j < i, ∃ d, block.operations[j]? = some d ∧ d.result = some source := by
  obtain ⟨defined, hcheck, -, hdefined⟩ := h.at_index hop
  simp only [checkOperation, hwrite, List.append_eq_nil_iff, checkUse_eq_nil] at hcheck
  obtain ⟨⟨v, hv, hvdef⟩, -⟩ := hcheck
  obtain rfl : source = v := by simpa [hl] using hv
  exact (hdefined source).mp hvdef

/-- A value is defined once. -/
theorem Block.Verified.unique {block : Block} (h : block.Verified) {i j : Nat}
    {a b : Operation} {v : ValueId} (ha : block.operations[i]? = some a)
    (hb : block.operations[j]? = some b) (hva : a.result = some v) (hvb : b.result = some v) :
    i = j := by
  have key {i j : Nat} {a b : Operation} (ha : block.operations[i]? = some a)
      (hb : block.operations[j]? = some b) (hva : a.result = some v) (hvb : b.result = some v) :
      ¬i < j := by
    intro hij
    obtain ⟨defined, -, hfresh, hiff⟩ := h.at_index hb
    have := (hiff v).mpr ⟨i, hij, a, ha, hva⟩
    simp [hfresh v hvb] at this
  have h1 := key ha hb hva hvb
  have h2 := key hb ha hvb hva
  omega

/-- The definition of a value that is defined before an operation. -/
theorem Block.Verified.definingOperation_eq {block : Block} (h : block.Verified) {j : Nat}
    {d : Operation} {v : ValueId} (hd : block.operations[j]? = some d) (hv : d.result = some v) :
    block.definingOperation v = some d := by
  unfold Block.definingOperation
  cases hf : block.operations.reverse.find? fun op => decide (op.result = some v) with
  | none =>
    have := List.find?_eq_none.mp hf d (List.mem_reverse.mpr (List.mem_of_getElem? hd))
    simp [hv] at this
  | some e =>
    have he : e.result = some v := by simpa using List.find?_some hf
    obtain ⟨k, hk⟩ := List.getElem?_of_mem (List.mem_reverse.mp (List.mem_of_find?_eq_some hf))
    obtain rfl := h.unique hk hd he hv
    simpa [hk] using hd

/-- The value an operation has computed is there when a later one reads it. -/
theorem Block.Verified.values_defined {block : Block} (h : block.Verified) {rt : Runtime M E}
    {m n : Machine M} {index : Nat} (hle : index ≤ block.operations.length)
    (hrun : runTo rt (block.operations.take index) m = some n) {v : ValueId}
    {P : BitVec 64 → Prop} {j : Nat} {d : Operation} (hd : block.operations[j]? = some d)
    (hv : d.result = some v) (hj : j < index)
    (hvalue : ∀ a b, Steps rt d a b → P (b.values v)) : P (n.values v) := by
  refine runTo_induction (P := fun i machine => j < i → P (machine.values v)) (by simp) ?_ hle
    hrun hj
  intro i op a b hop _ hs ih hji
  rcases Nat.lt_succ_iff_lt_or_eq.mp hji with hlt | rfl
  · have hne : op.result ≠ some v := fun hr => by
      have := h.unique hd hop hv hr
      omega
    rw [hs.values_of_ne hne]
    exact ih hlt
  · obtain rfl : op = d := by simpa [hd] using hop.symm
    exact hvalue a b hs

end Rosa
