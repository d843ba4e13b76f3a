import Rosa.IR.Semantics

/-!
# Building a block

`ir::Builder` appends operations to a block and numbers the values that they define. A
`Lowering` is code that uses the builder : from the number of the next value it returns a
result with the operations it has appended, or it throws.

`Emits` is the weakest precondition of running what a lowering appends. Its rules follow the
shape of a `do` block, as the rules of `Post` do, and each of the builder's functions has its
own.
-/

namespace Rosa

/-- Code that appends operations, from the number of the next value. -/
def Lowering (α : Type) : Type := Nat → Except String (α × List Operation × Nat)

namespace Lowering

variable {α β : Type}

instance : Monad Lowering where
  pure a := fun n => .ok (a, [], n)
  bind x f := fun n =>
    match x n with
    | .error e => .error e
    | .ok (a, ops, n') =>
      match f a n' with
      | .error e => .error e
      | .ok (b, ops', n'') => .ok (b, ops ++ ops', n'')

/-- Throw. -/
def raise (message : String) : Lowering α := fun _ => .error message

/-- Throw if the condition holds. -/
def raiseIf (condition : Bool) (message : String) : Lowering Unit :=
  if condition then raise message else pure ()

/-- Append an operation without a result. -/
def append (op : Operation) : Lowering Unit := fun n => .ok ((), [op], n)

/-- Append an operation whose result is the next value. -/
def define (op : Operation) : Lowering ValueId :=
  fun n => .ok (n, [{ op with result := some n }], n + 1)

/-! ## The builder's functions -/

variable (rip : GuestAddress)

/-- `Builder::constant`. -/
def constant (value : BitVec 64) (width : Width) : Lowering ValueId :=
  define { opcode := .constant, width := width, guestRip := rip, immediate := value }

/-- `Builder::readGuestRegister`. -/
def readGuestRegister (reg : Register) (width : Width) : Lowering ValueId :=
  define { opcode := .readGuestReg, width := width, guestRip := rip, guestRegister := some reg }

/-- `Builder::readGuestXmmLane`. -/
def readGuestXmmLane (reg : XmmRegister) (high : Bool) : Lowering ValueId :=
  define { opcode := .readGuestXmmLane, guestRip := rip, guestXmmRegister := some reg
           immediate := if high then 1 else 0 }

/-- `Builder::writeGuestXmmLane`. -/
def writeGuestXmmLane (reg : XmmRegister) (high : Bool) (value : ValueId) : Lowering Unit :=
  append { opcode := .writeGuestXmmLane, guestRip := rip, lhs := some value
           guestXmmRegister := some reg, immediate := if high then 1 else 0 }

/-- `Builder::add`. -/
def add (lhs rhs : ValueId) (width : Width) : Lowering ValueId :=
  define { opcode := .add, width := width, guestRip := rip, lhs := some lhs, rhs := some rhs }

/-- `Builder::shiftLeft` by an immediate count. -/
def shiftLeft (value : ValueId) (count : Nat) (width : Width) : Lowering ValueId :=
  define { opcode := .shiftLeft, width := width, guestRip := rip, lhs := some value
           immediate := BitVec.ofNat 64 (count % 256) }

/-- `Builder::loadGuest`. -/
def loadGuest (address : ValueId) (width : Width) : Lowering ValueId :=
  define { opcode := .loadGuest, width := width, guestRip := rip, lhs := some address }

/-- `Builder::storeGuest`. -/
def storeGuest (address value : ValueId) (width : Width) : Lowering Unit :=
  append { opcode := .storeGuest, width := width, guestRip := rip, lhs := some address
           rhs := some value }

/-- A value of two others. -/
def binary (opcode : Opcode) (lhs rhs : ValueId) (width : Width) : Lowering ValueId :=
  define { opcode := opcode, width := width, guestRip := rip, lhs := some lhs, rhs := some rhs }

/-- `Builder::sub`. -/
def sub (lhs rhs : ValueId) (width : Width) : Lowering ValueId := binary rip .sub lhs rhs width

/-- `Builder::bitAnd`. -/
def bitAnd (lhs rhs : ValueId) (width : Width) : Lowering ValueId := binary rip .and lhs rhs width

/-- `Builder::bitOr`. -/
def bitOr (lhs rhs : ValueId) (width : Width) : Lowering ValueId := binary rip .or lhs rhs width

/-- `Builder::bitXor`. -/
def bitXor (lhs rhs : ValueId) (width : Width) : Lowering ValueId := binary rip .xor lhs rhs width

/-- `Builder::multiplyLow`. -/
def multiplyLow (lhs rhs : ValueId) (width : Width) : Lowering ValueId :=
  binary rip .multiplyLow lhs rhs width

/-- `Builder::multiplyHighUnsigned`. -/
def multiplyHighUnsigned (lhs rhs : ValueId) (width : Width) : Lowering ValueId :=
  binary rip .multiplyHighUnsigned lhs rhs width

/-- `Builder::multiplyHighSigned`. -/
def multiplyHighSigned (lhs rhs : ValueId) (width : Width) : Lowering ValueId :=
  binary rip .multiplyHighSigned lhs rhs width

/-- `Builder::shiftLeft` by a value. -/
def shiftLeftBy (value count : ValueId) (width : Width) : Lowering ValueId :=
  binary rip .shiftLeft value count width

/-- `Builder::shiftRightLogical` by a value. -/
def shiftRightLogicalBy (value count : ValueId) (width : Width) : Lowering ValueId :=
  binary rip .shiftRightLogical value count width

/-- `Builder::shiftRightArithmetic` by a value. -/
def shiftRightArithmeticBy (value count : ValueId) (width : Width) : Lowering ValueId :=
  binary rip .shiftRightArithmetic value count width

/-- A value shifted by an immediate count. -/
def shifted (opcode : Opcode) (value : ValueId) (count : Nat) (width : Width) : Lowering ValueId :=
  define { opcode := opcode, width := width, guestRip := rip, lhs := some value
           immediate := BitVec.ofNat 64 (count % 256) }

/-- `Builder::shiftRightLogical` by an immediate count. -/
def shiftRightLogical (value : ValueId) (count : Nat) (width : Width) : Lowering ValueId :=
  shifted rip .shiftRightLogical value count width

/-- `Builder::shiftRightArithmetic` by an immediate count. -/
def shiftRightArithmetic (value : ValueId) (count : Nat) (width : Width) : Lowering ValueId :=
  shifted rip .shiftRightArithmetic value count width

/-- `Builder::shiftRightDouble`. -/
def shiftRightDouble (low high : ValueId) (count : Nat) (width : Width) : Lowering ValueId :=
  define { opcode := .shiftRightDouble, width := width, guestRip := rip, lhs := some low
           rhs := some high, immediate := BitVec.ofNat 64 (count % 256) }

/-- `Builder::byteSwap`. -/
def byteSwap (value : ValueId) (width : Width) : Lowering ValueId :=
  define { opcode := .byteSwap, width := width, guestRip := rip, lhs := some value }

/-- `Builder::writeGuestRegister`. -/
def writeGuestRegister (reg : Register) (value : ValueId) (width : Width) : Lowering Unit :=
  append { opcode := .writeGuestReg, width := width, guestRip := rip, lhs := some value
           guestRegister := some reg }

/-- An update of the flags from values and an immediate count. -/
def updateFlags (opcode : Opcode) (width : Width) (lhs : ValueId) (rhs : Option ValueId := none)
    (third : Option ValueId := none) (count : Nat := 0) : Lowering Unit :=
  append { opcode := opcode, width := width, guestRip := rip, lhs := some lhs, rhs := rhs
           third := third, immediate := BitVec.ofNat 64 (count % 256) }

/-- A division helper : `Builder::divideUnsignedByte` and its like. -/
def divide (opcode : Opcode) (width : Width) (divisor : ValueId) : Lowering Unit :=
  append { opcode := opcode, width := width, guestRip := rip, lhs := some divisor }

end Lowering

/-! ## Running a part of a block -/

variable {M E : Type}

/-- The operations in order, up to the end of the list. -/
def exec (rt : Runtime M E) : List Operation → Machine M → Effect M E
  | [], m => .next m
  | op :: ops, m =>
    match step rt op m with
    | .next m' => exec rt ops m'
    | .done outcome => .done outcome

theorem exec_append (rt : Runtime M E) (ops ops' : List Operation) (m : Machine M) :
    exec rt (ops ++ ops') m =
      match exec rt ops m with
      | .next m' => exec rt ops' m'
      | .done outcome => .done outcome := by
  induction ops generalizing m with
  | nil => rfl
  | cons op ops ih =>
    simp only [List.cons_append, exec]
    cases step rt op m with
    | next m' => exact ih m'
    | done outcome => rfl

theorem exec_singleton (rt : Runtime M E) (op : Operation) (m : Machine M) :
    exec rt [op] m = step rt op m := by
  simp only [exec]
  cases step rt op m <;> rfl

/-- What is seen of a part of a block : whether it faulted, the guest and the memory. -/
def observed : Effect M E → Option (Except E Unit × GuestState × M)
  | .next m => some (.ok (), m.guest, m.memory)
  | .done (.fault _ _ error guest memory) => some (.error error, guest, memory)
  | .done _ => none

/-- The state with one more value. -/
def Machine.define (m : Machine M) (n : ValueId) (v : BitVec 64) : Machine M :=
  { m with values := Function.update m.values n v }

@[simp] theorem Machine.define_guest (m : Machine M) (n : ValueId) (v : BitVec 64) :
    (m.define n v).guest = m.guest := rfl

@[simp] theorem Machine.define_memory (m : Machine M) (n : ValueId) (v : BitVec 64) :
    (m.define n v).memory = m.memory := rfl

@[simp] theorem Machine.define_self (m : Machine M) (n : ValueId) (v : BitVec 64) :
    (m.define n v).values n = v := by
  simp [Machine.define]

theorem Machine.define_of_lt (m : Machine M) {k n : ValueId} (h : k < n) (v : BitVec 64) :
    (m.define n v).values k = m.values k := by
  simp [Machine.define, Function.update_of_ne (Nat.ne_of_lt h)]

/-! ## Weakest preconditions -/

/-- If the lowering returns, running what it appends ends with `Q`, or ends the block with
`F`. -/
def Emits {α : Type} (rt : Runtime M E) (x : Lowering α) (n : Nat) (m : Machine M)
    (Q : α → Nat → Machine M → Prop) (F : Outcome M E → Prop) : Prop :=
  match x n with
  | .error _ => True
  | .ok (a, ops, n') =>
    match exec rt ops m with
    | .next m' => Q a n' m'
    | .done outcome => F outcome

section

variable {α β : Type} {rt : Runtime M E} {n : Nat} {m : Machine M}
variable {Q Q' : α → Nat → Machine M → Prop} {F F' : Outcome M E → Prop}

theorem Emits.mono {x : Lowering α} (h : Emits rt x n m Q F)
    (hQ : ∀ a n' m', Q a n' m' → Q' a n' m') (hF : ∀ o, F o → F' o) : Emits rt x n m Q' F' := by
  unfold Emits at h ⊢
  split
  · trivial
  · next a ops n' hx =>
    rw [hx] at h
    dsimp only at h
    split at h
    · next m' hrun => simpa only [hrun] using hQ a n' m' h
    · next o hrun => simpa only [hrun] using hF o h

theorem Emits.bind {x : Lowering β} {f : β → Lowering α}
    (h : Emits rt x n m (fun b n' m' => Emits rt (f b) n' m' Q F) F) :
    Emits rt (x >>= f) n m Q F := by
  have hbind : (x >>= f) n =
      match x n with
      | .error e => .error e
      | .ok (b, ops, n') =>
        match f b n' with
        | .error e => .error e
        | .ok (a, ops', n'') => .ok (a, ops ++ ops', n'') := rfl
  unfold Emits at h ⊢
  rw [hbind]
  rcases hx : x n with e | ⟨b, ops, n'⟩
  · trivial
  · rw [hx] at h
    dsimp only at h ⊢
    rcases hf : f b n' with e | ⟨a, ops', n''⟩
    · trivial
    · dsimp only
      rw [exec_append]
      rcases hrun : exec rt ops m with m' | o
      · rw [hrun] at h
        dsimp only at h ⊢
        rw [hf] at h
        exact h
      · rw [hrun] at h
        exact h

theorem Emits.pure {a : α} (h : Q a n m) : Emits rt (Pure.pure a : Lowering α) n m Q F := h

theorem Emits.raise (message : String) : Emits rt (Lowering.raise message : Lowering α) n m Q F :=
  trivial

theorem Emits.raiseIf {condition : Bool} {message : String} {Q : Unit → Nat → Machine M → Prop}
    (h : condition = false → Q () n m) :
    Emits rt (Lowering.raiseIf condition message) n m Q F := by
  cases condition with
  | false => exact h rfl
  | true => trivial

theorem Emits.append {op : Operation} {Q : Unit → Nat → Machine M → Prop}
    (h : match step rt op m with
      | .next m' => Q () n m'
      | .done outcome => F outcome) : Emits rt (Lowering.append op) n m Q F := by
  unfold Emits Lowering.append
  dsimp only
  rw [exec_singleton]
  exact h

theorem Emits.define {op : Operation} {Q : ValueId → Nat → Machine M → Prop}
    (h : match step rt { op with result := some n } m with
      | .next m' => Q n (n + 1) m'
      | .done outcome => F outcome) : Emits rt (Lowering.define op) n m Q F := by
  unfold Emits Lowering.define
  dsimp only
  rw [exec_singleton]
  exact h

/-- What is seen after a lowering that returns. -/
theorem Emits.observed {x : Lowering α} {r : Except E Unit × GuestState × M}
    (h : Emits rt x n m (fun _ _ m' => (.ok (), m'.guest, m'.memory) = r)
      fun o => Rosa.observed (.done o) = some r)
    {a : α} {ops : List Operation} {n' : Nat} (hx : x n = .ok (a, ops, n')) :
    Rosa.observed (exec rt ops m) = some r := by
  unfold Emits at h
  rw [hx] at h
  dsimp only at h
  rcases hrun : exec rt ops m with m' | o
  · rw [hrun] at h
    exact congrArg some h
  · rw [hrun] at h
    exact h

/-! ## The functions that define values -/

/-- A lowering that only defines values returned one that is `v`. -/
structure Computed (m : Machine M) (n : Nat) (v : BitVec 64) (a : ValueId) (n' : Nat)
    (m' : Machine M) : Prop where
  guest : m'.guest = m.guest
  memory : m'.memory = m.memory
  lt : a < n'
  le : n ≤ n'
  value : m'.values a = v
  keeps : ∀ k < n, m'.values k = m.values k

theorem Computed.define (m : Machine M) (n : Nat) (v : BitVec 64) :
    Computed m n v n (n + 1) (m.define n v) where
  guest := rfl
  memory := rfl
  lt := Nat.lt_succ_self n
  le := Nat.le_succ n
  value := m.define_self n v
  keeps _ hk := m.define_of_lt hk v

theorem Computed.refl {a : ValueId} (h : a < n) : Computed m n (m.values a) a n m where
  guest := rfl
  memory := rfl
  lt := h
  le := le_rfl
  value := rfl
  keeps _ _ := rfl

theorem Computed.trans {m1 m2 : Machine M} {n1 n2 : Nat} {v v' : BitVec 64} {a b : ValueId}
    (h : Computed m n v a n1 m1) (h' : Computed m1 n1 v' b n2 m2) : Computed m n v' b n2 m2 where
  guest := h'.guest.trans h.guest
  memory := h'.memory.trans h.memory
  lt := h'.lt
  le := h.le.trans h'.le
  value := h'.value
  keeps k hk := (h'.keeps k (hk.trans_le h.le)).trans (h.keeps k hk)

/-- The lowering defines a value that is `v`. -/
def Computes (rt : Runtime M E) (x : Lowering ValueId) (n : Nat) (m : Machine M) (v : BitVec 64) :
    Prop :=
  Emits rt x n m (Computed m n v) fun _ => False

theorem Computes.then {x : Lowering ValueId} {f : ValueId → Lowering α} {v : BitVec 64}
    (hx : Computes rt x n m v)
    (hf : ∀ a n' m', Computed m n v a n' m' → Emits rt (f a) n' m' Q F) :
    Emits rt (x >>= f) n m Q F :=
  Emits.bind (Emits.mono hx hf fun _ h => h.elim)

theorem Computes.bind {x : Lowering ValueId} {f : ValueId → Lowering ValueId} {v v' : BitVec 64}
    (hx : Computes rt x n m v)
    (hf : ∀ a n' m', Computed m n v a n' m' → Computes rt (f a) n' m' v') :
    Computes rt (x >>= f) n m v' :=
  hx.then fun a n' m' h => Emits.mono (hf a n' m' h) (fun _ _ _ h' => h.trans h') fun _ h => h

theorem Computes.pure {a : ValueId} {v : BitVec 64} (ha : a < n) (hv : m.values a = v) :
    Computes rt (Pure.pure a) n m v := by
  subst hv
  exact Emits.pure (Computed.refl ha)

/-- An operation of kind `value` defines what `valueOf` says. -/
theorem computes_define {op : Operation} {v : BitVec 64} (hk : op.opcode.kind = .value)
    (hv : valueOf op (operands m.values op) m.guest = some v) :
    Computes rt (Lowering.define op) n m v := by
  refine Emits.define ?_
  have hstep : step rt { op with result := some n } m = .next (m.define n v) :=
    step_value hk rfl hv
  rw [hstep]
  exact Computed.define m n v

variable (rip : GuestAddress)

theorem computes_constant (v : BitVec 64) : Computes rt (Lowering.constant rip v .i64) n m v :=
  computes_define rfl rfl

theorem computes_readGuestRegister (r : Register) (w : Width) :
    Computes rt (Lowering.readGuestRegister rip r w) n m (w.hostResult (m.guest.regs r)) :=
  computes_define rfl rfl

theorem computes_readGuestXmmLane (r : XmmRegister) (high : Bool) :
    Computes rt (Lowering.readGuestXmmLane rip r high) n m (laneOf (m.guest.xmm r) high) := by
  refine computes_define rfl ?_
  cases high <;> rfl

theorem computes_add (a b : ValueId) :
    Computes rt (Lowering.add rip a b .i64) n m (m.values a + m.values b) :=
  computes_define rfl rfl

theorem immediateCount_ofNat {count bound : Nat} (hbound : bound ≤ 256) (h : count < bound) :
    immediateCount (BitVec.ofNat 64 (count % 256)) bound = some count := by
  simp only [immediateCount, BitVec.toNat_ofNat]
  rw [Nat.mod_eq_of_lt (show count < 256 by omega),
    Nat.mod_eq_of_lt (show count < 2 ^ 64 by omega), Nat.mod_eq_of_lt (show count < 256 by omega),
    if_pos h]

theorem computes_shiftLeft (a : ValueId) {count : Nat} (hcount : count < 64) :
    Computes rt (Lowering.shiftLeft rip a count .i64) n m (m.values a <<< count) := by
  refine computes_define rfl ?_
  simp only [valueOf, operands, Option.map_some, shiftAmount, Option.map_none,
    immediateCount_ofNat (by decide) hcount]
  rfl

/-! ## The functions that change the state -/

theorem emits_writeGuestXmmLane {r : XmmRegister} {high : Bool} {a : ValueId}
    {Q : Unit → Nat → Machine M → Prop}
    (h : Q () n { m with guest := { m.guest with
      xmm := Function.update m.guest.xmm r (setLane (m.guest.xmm r) high (m.values a)) } }) :
    Emits rt (Lowering.writeGuestXmmLane rip r high a) n m Q F := by
  refine Emits.append ?_
  rw [step_guest rfl (g := { m.guest with
    xmm := Function.update m.guest.xmm r (setLane (m.guest.xmm r) high (m.values a)) })]
  · exact h
  · cases high <;> rfl

theorem emits_loadGuest {a : ValueId} {w : Width} {Q : ValueId → Nat → Machine M → Prop}
    (h : match rt.load w (m.values a) m.memory with
      | (.ok v, memory) => Q n (n + 1) ({ m with memory := memory }.define n (v.setWidth 64))
      | (.error e, memory) => ∀ op o, F (.fault op o e m.guest memory)) :
    Emits rt (Lowering.loadGuest rip a w) n m Q F := by
  refine Emits.define ?_
  simp only [step, Opcode.kind, operands, Option.map_some]
  rcases hload : rt.load w (m.values a) m.memory with ⟨e | v, memory⟩
  · rw [hload] at h
    exact h _ _
  · rw [hload] at h
    exact h

theorem emits_storeGuest {a b : ValueId} {w : Width} {Q : Unit → Nat → Machine M → Prop}
    (h : match rt.store w (m.values a) ((m.values b).setWidth _) m.memory with
      | (.ok _, memory) => Q () n { m with memory := memory }
      | (.error e, memory) => ∀ op o, F (.fault op o e m.guest memory)) :
    Emits rt (Lowering.storeGuest rip a b w) n m Q F := by
  refine Emits.append ?_
  simp only [step, Opcode.kind, operands, Option.map_some]
  rcases hstore : rt.store w (m.values a) ((m.values b).setWidth _) m.memory with ⟨e | v, memory⟩
  · rw [hstore] at h
    exact h _ _
  · rw [hstore] at h
    exact h

/-! ## Values in order

In a lowering without branches the numbers of its values are known, and the state after it is
the state before it with its values defined one by one. -/

theorem Machine.define_of_ne (m : Machine M) {k n : Nat} (h : k ≠ n) (v : BitVec 64) :
    (m.define n v).values k = m.values k := by
  simp [Machine.define, Function.update_of_ne h]

theorem emits_value {op : Operation} {Q : ValueId → Nat → Machine M → Prop} {v : BitVec 64}
    (hk : op.opcode.kind = .value) (hv : valueOf op (operands m.values op) m.guest = some v)
    (h : Q n (n + 1) (m.define n v)) : Emits rt (Lowering.define op) n m Q F := by
  refine Emits.define ?_
  have hstep : step rt { op with result := some n } m = .next (m.define n v) :=
    step_value hk rfl hv
  rw [hstep]
  exact h

section

variable {Q : ValueId → Nat → Machine M → Prop} {a b : ValueId} {w : Width}

theorem emits_constant {v : BitVec 64} (h : Q n (n + 1) (m.define n (w.hostResult v))) :
    Emits rt (Lowering.constant rip v w) n m Q F :=
  emits_value rfl rfl h

theorem emits_readGuestRegister {r : Register}
    (h : Q n (n + 1) (m.define n (w.hostResult (m.guest.regs r)))) :
    Emits rt (Lowering.readGuestRegister rip r w) n m Q F :=
  emits_value rfl rfl h

theorem emits_sub (h : Q n (n + 1) (m.define n (w.hostResult (m.values a - m.values b)))) :
    Emits rt (Lowering.sub rip a b w) n m Q F :=
  emits_value rfl rfl h

theorem emits_bitAnd (h : Q n (n + 1) (m.define n (w.hostResult (m.values a &&& m.values b)))) :
    Emits rt (Lowering.bitAnd rip a b w) n m Q F :=
  emits_value rfl rfl h

theorem emits_bitOr (h : Q n (n + 1) (m.define n (w.hostResult (m.values a ||| m.values b)))) :
    Emits rt (Lowering.bitOr rip a b w) n m Q F :=
  emits_value rfl rfl h

theorem emits_bitXor (h : Q n (n + 1) (m.define n (w.hostResult (m.values a ^^^ m.values b)))) :
    Emits rt (Lowering.bitXor rip a b w) n m Q F :=
  emits_value rfl rfl h

theorem emits_multiplyLow (h : Q n (n + 1) (m.define n (m.values a * m.values b))) :
    Emits rt (Lowering.multiplyLow rip a b w) n m Q F :=
  emits_value rfl rfl h

theorem emits_multiplyHighUnsigned (h : Q n (n + 1) (m.define n
      ((((m.values a).setWidth 128 * (m.values b).setWidth 128) >>> 64).setWidth 64))) :
    Emits rt (Lowering.multiplyHighUnsigned rip a b w) n m Q F :=
  emits_value rfl rfl h

theorem emits_multiplyHighSigned (h : Q n (n + 1) (m.define n
      ((((m.values a).signExtend 128 * (m.values b).signExtend 128) >>> 64).setWidth 64))) :
    Emits rt (Lowering.multiplyHighSigned rip a b w) n m Q F :=
  emits_value rfl rfl h

theorem emits_shiftLeftBy
    (h : Q n (n + 1) (m.define n (m.values a <<< ((m.values b).toNat % 64)))) :
    Emits rt (Lowering.shiftLeftBy rip a b w) n m Q F :=
  emits_value rfl rfl h

theorem emits_shiftRightLogicalBy
    (h : Q n (n + 1) (m.define n (m.values a >>> ((m.values b).toNat % 64)))) :
    Emits rt (Lowering.shiftRightLogicalBy rip a b w) n m Q F :=
  emits_value rfl rfl h

/-- An arithmetic shift as the backend computes it. -/
def arithmeticShift (w : Width) (v : BitVec 64) (count : Nat) : BitVec 64 :=
  match w with
  | .i32 => ((v.setWidth 32).sshiftRight (count % 32)).setWidth 64
  | _ => v.sshiftRight (count % 64)

theorem emits_shiftRightArithmeticBy
    (h : Q n (n + 1) (m.define n (arithmeticShift w (m.values a) (m.values b).toNat))) :
    Emits rt (Lowering.shiftRightArithmeticBy rip a b w) n m Q F := by
  refine emits_value rfl ?_ h
  cases w <;> rfl

theorem emits_shiftLeft {count : Nat} (hc : count < 64)
    (h : Q n (n + 1) (m.define n (m.values a <<< count))) :
    Emits rt (Lowering.shiftLeft rip a count w) n m Q F := by
  refine emits_value rfl ?_ h
  simp only [valueOf, operands, Option.map_some, shiftAmount, Option.map_none,
    immediateCount_ofNat (by decide) hc]
  rfl

theorem emits_shiftRightLogical {count : Nat} (hc : count < 64)
    (h : Q n (n + 1) (m.define n (m.values a >>> count))) :
    Emits rt (Lowering.shiftRightLogical rip a count w) n m Q F := by
  refine emits_value rfl ?_ h
  simp only [valueOf, operands, Option.map_some, shiftAmount, Option.map_none,
    immediateCount_ofNat (by decide) hc]
  rfl

theorem emits_shiftRightArithmetic {count : Nat} (hc : count < if w = .i32 then 32 else 64)
    (h : Q n (n + 1) (m.define n (arithmeticShift w (m.values a) count))) :
    Emits rt (Lowering.shiftRightArithmetic rip a count w) n m Q F := by
  refine emits_value rfl ?_ h
  by_cases hw : w = .i32
  · subst hw
    rw [if_pos rfl] at hc
    simp only [valueOf, operands, Option.map_some, shiftAmount, Option.map_none,
      immediateCount_ofNat (by decide) hc, arithmeticShift, Nat.mod_eq_of_lt hc]
    rfl
  · rw [if_neg hw] at hc
    cases w <;> first
      | exact absurd rfl hw
      | (simp only [valueOf, operands, Option.map_some, shiftAmount, Option.map_none,
          immediateCount_ofNat (by decide) hc, arithmeticShift, Nat.mod_eq_of_lt hc]
         rfl)

theorem emits_shiftRightDouble {count : Nat} (hc : count < 64)
    (h : Q n (n + 1) (m.define n (((m.values b ++ m.values a) >>> count).setWidth 64))) :
    Emits rt (Lowering.shiftRightDouble rip a b count w) n m Q F := by
  refine emits_value rfl ?_ h
  simp only [valueOf, operands, Option.map_some, immediateCount_ofNat (by decide) hc]
  rfl

theorem emits_byteSwap (h : Q n (n + 1) (m.define n
      (if w = .i32 then reverseBytes32 (m.values a) else reverseBytes64 (m.values a)))) :
    Emits rt (Lowering.byteSwap rip a w) n m Q F := by
  refine emits_value rfl ?_ h
  cases w <;> rfl

end

theorem emits_writeGuestRegister {r : Register} {a : ValueId} {w : Width}
    {Q : Unit → Nat → Machine M → Prop}
    (h : Q () n { m with guest := m.guest.setReg r (w.merge (m.guest.regs r) (m.values a)) }) :
    Emits rt (Lowering.writeGuestRegister rip r a w) n m Q F := by
  refine Emits.append ?_
  rw [step_guest rfl rfl]
  exact h

theorem emits_updateFlags {opcode : Opcode} {w : Width} {a : ValueId} {b c : Option ValueId}
    {count : Nat} {rflags : BitVec 64} {Q : Unit → Nat → Machine M → Prop}
    (hk : opcode.kind = .flags)
    (hf : flagUpdate { opcode := opcode, width := w, guestRip := rip, lhs := some a, rhs := b
                       third := c, immediate := BitVec.ofNat 64 (count % 256) }
      ⟨some (m.values a), b.map m.values, c.map m.values⟩ m.guest.rflags = some rflags)
    (h : Q () n { m with guest := { m.guest with rflags := rflags } }) :
    Emits rt (Lowering.updateFlags rip opcode w a b c count) n m Q F := by
  refine Emits.append ?_
  rw [step_flags hk hf]
  exact h

end

end Rosa
