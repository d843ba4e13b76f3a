import Rosa.IR.Definitions
import Rosa.Guest.Words

/-!
# Calls and returns

The end of one turn of `Dispatcher::run` after a block that ends in a call or a return. The block
has executed its other instructions and set RIP; the dispatcher then accesses the stack. An access
that fails should leave memory and RSP alone and RIP at the call or the return. A return does, since
the block has set RIP to it. A call that cannot write its return address leaves RIP at the start of
the block, and one whose stack pointer is below 8 leaves it at the target of the call
(`transactional_iff`).
-/

namespace Rosa

open Rosa.Computation Rosa.AddressSpace

/-! ## The dispatcher -/

/-- What the dispatcher uses of a `TranslatedBlock`. -/
structure DispatchedBlock where
  ir : Block
  cachedCallReturnAddress : Option GuestAddress := none

/-- `callReturnAddress` : the one of the cache entry, or the one of the last call of the block. -/
def DispatchedBlock.callReturnAddress (block : DispatchedBlock) : Option GuestAddress :=
  match block.cachedCallReturnAddress with
  | some address => some address
  | none =>
    block.ir.operations.foldl
      (fun found op =>
        if op.opcode = .exitBlock ∧ op.exitKind = .call then op.fallthrough else found)
      none

/-- The exceptions that leave the dispatcher. -/
inductive DispatchError (E : Type)
  | thrown (message : String)
  | access (error : AccessError)
  | fault (error : E)

/-- How a turn ends : whether the run goes on, or with an exception. -/
abbrev TurnResult (E : Type) := Except (DispatchError E) Bool × GuestState × AddressSpace

variable {E : Type}

/-- The case `BlockExit::Call`. -/
def dispatchCall (block : DispatchedBlock) (blockAddress : GuestAddress) (g : GuestState)
    (s : AddressSpace) : TurnResult E :=
  match block.callReturnAddress with
  | none => (.error (.thrown "call block has no return-address metadata"), g, s)
  | some returnAddress =>
    if g.regs .rsp < 8 then
      (.error (.thrown "guest stack underflow while executing call"), g, s)
    else
      let newStackPointer := g.regs .rsp - 8
      match writeWord newStackPointer.toNat 8 returnAddress s with
      | (.ok _, s) => (.ok true, g.setReg .rsp newStackPointer, s)
      | (.error e, s) => (.error (.access e), { g with rip := blockAddress }, s)

/-- The case `BlockExit::Return`. -/
def dispatchReturn (returnSentinel : Option GuestAddress) (g : GuestState) (s : AddressSpace) :
    TurnResult E :=
  match readWord (g.regs .rsp).toNat 8 s with
  | (.error e, s) => (.error (.access e), g, s)
  | (.ok bytes, s) =>
    let target := ofLittleEndian 64 8 bytes
    let g := g.setReg .rsp (g.regs .rsp + 8)
    if returnSentinel = some target then (.ok false, g, s)
    else (.ok true, { g with rip := target }, s)

/-- One turn of `Dispatcher::run` with the block of the address in RIP. -/
def turn (rt : Runtime AddressSpace E)
    (syscall : GuestState → AddressSpace → TurnResult E)
    (returnSentinel : Option GuestAddress) (block : DispatchedBlock) (g : GuestState)
    (s : AddressSpace) : TurnResult E :=
  match runBlock rt block.ir g s with
  | .exit .call g' s' => dispatchCall block g.rip g' s'
  | .exit .return g' s' => dispatchReturn returnSentinel g' s'
  | .exit .syscall g' s' => syscall g' s'
  | .exit _ g' s' => (.ok true, g', s')
  | .fault op _ e g' s' => (.error (.fault e), { g' with rip := op.guestRip }, s')
  | .stuck => (.error (.thrown "generated block returned an invalid exit reason"), g, s)

/-! ## Blocks that end in a call or a return -/

/-- The instruction a block ends with : a call of an address, a call through a value, a return. -/
inductive Terminator
  | callRelative (target returnAddress : GuestAddress)
  | callIndirect (target : ValueId) (returnAddress : GuestAddress)
  | ret

/-- `exitCall` and `exitBlock` of the IR builder, for the instruction at `rip`. -/
def Terminator.operation (rip : GuestAddress) : Terminator → Operation
  | callRelative target returnAddress =>
    { opcode := .exitBlock, guestRip := rip, target := some target,
      fallthrough := some returnAddress, exitKind := .call }
  | callIndirect target returnAddress =>
    { opcode := .exitBlock, guestRip := rip, lhs := some target,
      fallthrough := some returnAddress, exitKind := .call }
  | ret => { opcode := .exitBlock, guestRip := rip, exitKind := .return }

/-- The return address of a call. -/
def Terminator.returnAddress : Terminator → Option GuestAddress
  | callRelative _ returnAddress | callIndirect _ returnAddress => some returnAddress
  | ret => none

/-- The address that RIP has at the exit. -/
def Terminator.exitRip (rip : GuestAddress) (values : ValueId → BitVec 64) :
    Terminator → GuestAddress
  | callRelative target _ => target
  | callIndirect target _ => values target
  | ret => rip

/-- A block whose last instruction, at `rip`, is a call or a return. A block from the cache has
the return address of its call. -/
structure EndsIn (block : DispatchedBlock) (body : List Operation) (rip : GuestAddress)
    (last : Terminator) : Prop where
  operations : block.ir.operations = body ++ [last.operation rip]
  cached : block.cachedCallReturnAddress = none ∨
    block.cachedCallReturnAddress = last.returnAddress

variable {rt : Runtime AddressSpace E} {block : DispatchedBlock} {body : List Operation}
  {rip : GuestAddress} {last : Terminator}

theorem EndsIn.callReturnAddress (h : EndsIn block body rip last) (hcall : last ≠ .ret) :
    block.callReturnAddress = last.returnAddress := by
  have hscan : (block.ir.operations.foldl
      (fun found op =>
        if op.opcode = .exitBlock ∧ op.exitKind = .call then op.fallthrough else found)
      none) = last.returnAddress := by
    rw [h.operations, List.foldl_append, List.foldl_cons, List.foldl_nil]
    cases last with
    | callRelative target returnAddress => rfl
    | callIndirect target returnAddress => rfl
    | ret => exact absurd rfl hcall
  unfold DispatchedBlock.callReturnAddress
  rcases h.cached with hnone | hsome
  · rw [hnone]
    exact hscan
  · rw [hsome]
    cases last with
    | callRelative target returnAddress => rfl
    | callIndirect target returnAddress => rfl
    | ret => exact absurd rfl hcall

theorem run_append_of_runTo : ∀ {ops rest : List Operation} {m m' : Machine AddressSpace},
    runTo rt ops m = some m' → run rt (ops ++ rest) m = run rt rest m'
  | [], _, m, m', h => by
    obtain rfl : m = m' := Option.some.inj h
    rfl
  | op :: ops, rest, m, m', h => by
    rw [runTo] at h
    cases hstep : step rt op m with
    | next m1 =>
      rw [hstep] at h
      rw [List.cons_append, run_next hstep]
      exact run_append_of_runTo h
    | done outcome =>
      rw [hstep] at h
      cases h

/-- The block reaches its last instruction and exits with RIP set. -/
theorem EndsIn.runBlock (h : EndsIn block body rip last) {g : GuestState} {s : AddressSpace}
    {m : Machine AddressSpace} (hbody : runTo rt body ⟨fun _ => 0, g, s⟩ = some m) :
    Rosa.runBlock rt block.ir g s =
      .exit (last.operation rip).exitKind { m.guest with rip := last.exitRip rip m.values }
        m.memory := by
  unfold Rosa.runBlock
  rw [h.operations, run_append_of_runTo hbody]
  refine run_done (step_exit ?_ ?_) _
  · cases last <;> rfl
  · cases last <;> rfl

/-! ## Transactions -/

/-- The stack slot that the instruction accesses. -/
def Terminator.slot (last : Terminator) (g : GuestState) : Nat :=
  match last.returnAddress with
  | some _ => (g.regs .rsp - 8).toNat
  | none => (g.regs .rsp).toNat

/-- The stack lets the instruction push, respectively pop. -/
def Terminator.Able (last : Terminator) (m : Machine AddressSpace) : Prop :=
  match last.returnAddress with
  | some _ => 8 ≤ (m.guest.regs .rsp).toNat ∧ ∀ k < 8, m.memory.MayWrite (last.slot m.guest + k)
  | none => ∀ k < 8, m.memory.ReadableAt (last.slot m.guest + k)

/-- The word that memory shows at an address. -/
def ShowsWord (s : AddressSpace) (address : Nat) (value : BitVec 64) : Prop :=
  ∀ memory, Depicts memory s.settled → ofLittleEndian 64 8 (bytesAt memory address 8) = value

/-- A call has pushed its return address. -/
structure Pushed (returnAddress : GuestAddress) (m : Machine AddressSpace)
    (result : TurnResult E) : Prop where
  returns : ∃ goesOn, result.1 = .ok goesOn
  written : Written m.memory (m.guest.regs .rsp - 8).toNat (wordBytes 8 returnAddress) result.2.2
  stackPointer : result.2.1.regs .rsp = m.guest.regs .rsp - 8

/-- A return has popped RIP. -/
structure Popped (m : Machine AddressSpace) (result : TurnResult E) : Prop where
  returns : ∃ goesOn, result.1 = .ok goesOn
  memory : SameMemory m.memory result.2.2
  stackPointer : result.2.1.regs .rsp = m.guest.regs .rsp + 8
  popped : ShowsWord m.memory (m.guest.regs .rsp).toNat result.2.1.rip

/-- Nothing has happened and RIP is at the instruction. -/
structure RolledBack (rip : GuestAddress) (m : Machine AddressSpace) (result : TurnResult E) :
    Prop where
  throws : ∃ e, result.1 = .error e
  memory : SameMemory m.memory result.2.2
  stackPointer : result.2.1.regs .rsp = m.guest.regs .rsp
  instruction : result.2.1.rip = rip

/-- The instruction at `rip` is done, or rolled back if the stack does not let it. `m` is the
machine after the other instructions of the block. -/
structure Transactional (rip : GuestAddress) (last : Terminator) (m : Machine AddressSpace)
    (result : TurnResult E) : Prop where
  call : ∀ returnAddress, last.returnAddress = some returnAddress → last.Able m →
    Pushed returnAddress m result
  ret : last.returnAddress = none → last.Able m → Popped m result
  fails : ¬last.Able m → RolledBack rip m result

/-- When RIP is right : a call that cannot push is the first instruction of its block and does not
underflow, or underflows and calls itself; a return does not pop the sentinel, or is at the
sentinel. -/
def RipNamed (returnSentinel : Option GuestAddress) (start rip : GuestAddress) (last : Terminator)
    (m : Machine AddressSpace) : Prop :=
  match last.returnAddress with
  | some _ => ¬last.Able m →
      if (m.guest.regs .rsp).toNat < 8 then last.exitRip rip m.values = rip else start = rip
  | none => last.Able m → ∀ sentinel, returnSentinel = some sentinel →
      ShowsWord m.memory (last.slot m.guest) sentinel → sentinel = rip

variable {m : Machine AddressSpace} {start target returnAddress : GuestAddress}
  {returnSentinel : Option GuestAddress}

/-- What the dispatcher does after a call. -/
theorem dispatchCall_transaction (rip : GuestAddress) (hra : block.callReturnAddress = some returnAddress)
    (hr : Regular m.memory) (hno : NoneFails m.memory (m.guest.regs .rsp - 8).toNat 8)
    {result : TurnResult E}
    (hresult : result = dispatchCall block start { m.guest with rip := target } m.memory) :
    (8 ≤ (m.guest.regs .rsp).toNat ∧
        (∀ k < 8, m.memory.MayWrite ((m.guest.regs .rsp - 8).toNat + k)) →
      Pushed returnAddress m result) ∧
    (¬(8 ≤ (m.guest.regs .rsp).toNat ∧
        ∀ k < 8, m.memory.MayWrite ((m.guest.regs .rsp - 8).toNat + k)) →
      (RolledBack rip m result ↔
        if (m.guest.regs .rsp).toNat < 8 then target = rip else start = rip)) := by
  have hlow : m.guest.regs .rsp < 8 ↔ (m.guest.regs .rsp).toNat < 8 := BitVec.lt_def
  unfold dispatchCall at hresult
  rw [hra] at hresult
  dsimp only at hresult
  by_cases hunder : m.guest.regs .rsp < 8
  · rw [if_pos hunder] at hresult
    have hunder' := hlow.mp hunder
    subst hresult
    refine ⟨fun h => absurd h.1 (by omega), fun _ => ?_⟩
    rw [if_pos hunder']
    exact ⟨fun h => h.instruction, fun h => ⟨⟨_, rfl⟩, .refl _, rfl, h⟩⟩
  · rw [if_neg hunder] at hresult
    have hunder' : ¬(m.guest.regs .rsp).toNat < 8 := fun h => hunder (hlow.mpr h)
    have hable := writeWord_returns_iff hr returnAddress hno
    have hlength : (wordBytes 8 returnAddress).length = 8 := length_littleEndian ..
    have hwritten : Post (writeWord (m.guest.regs .rsp - 8).toNat 8 returnAddress) m.memory
        (fun _ s' => Written m.memory (m.guest.regs .rsp - 8).toNat (wordBytes 8 returnAddress) s')
        fun _ s' => NotWritten m.memory s' := writeBytes_written hr (by rwa [hlength])
    rcases hrun : writeWord (m.guest.regs .rsp - 8).toNat 8 returnAddress m.memory with ⟨e | u, s'⟩
    · have hkept := (Post.of_error hwritten hrun).memory
      rw [hrun] at hresult hable
      dsimp only at hresult
      subst hresult
      refine ⟨fun h => ?_, fun _ => ?_⟩
      · obtain ⟨s'', hok⟩ := hable.mpr h.2
        cases hok
      · rw [if_neg hunder']
        exact ⟨fun h => h.instruction, fun h => ⟨⟨_, rfl⟩, hkept, rfl, h⟩⟩
    · have hdone := Post.of_ok hwritten hrun
      rw [hrun] at hresult hable
      dsimp only at hresult
      subst hresult
      refine ⟨fun _ => ⟨⟨true, rfl⟩, hdone, ?_⟩, fun h => ?_⟩
      · simp
      · exact absurd ⟨by omega, hable.mp ⟨s', rfl⟩⟩ h

/-- What the dispatcher does after a return. -/
theorem dispatchReturn_transaction (hr : Regular m.memory)
    (hno : NoneFails m.memory (m.guest.regs .rsp).toNat 8) {result : TurnResult E}
    (hresult : result = dispatchReturn returnSentinel { m.guest with rip := rip } m.memory) :
    ((∀ k < 8, m.memory.ReadableAt ((m.guest.regs .rsp).toNat + k)) →
      (Popped m result ↔ ∀ sentinel, returnSentinel = some sentinel →
        ShowsWord m.memory (m.guest.regs .rsp).toNat sentinel → sentinel = rip)) ∧
    (¬(∀ k < 8, m.memory.ReadableAt ((m.guest.regs .rsp).toNat + k)) →
      RolledBack rip m result) := by
  unfold dispatchReturn at hresult
  dsimp only at hresult
  have hable := readWord_returns_iff hr hno (by decide)
  obtain ⟨memory, hs⟩ := hr.exists_shown
  rcases hrun : readWord (m.guest.regs .rsp).toNat 8 m.memory with ⟨e | bytes, s'⟩
  · have hkept := Post.of_error (readWord_shown hs hno) hrun
    rw [hrun] at hresult hable
    dsimp only at hresult
    subst hresult
    refine ⟨fun h => ?_, fun _ => ⟨⟨_, rfl⟩, hkept, rfl, rfl⟩⟩
    obtain ⟨bytes, s'', hok⟩ := hable.mpr h
    cases hok
  · rw [hrun] at hresult hable
    dsimp only at hresult
    have hsame := (Post.of_ok (readWord_shown hs hno) hrun).2
    have hword : ShowsWord m.memory (m.guest.regs .rsp).toNat (ofLittleEndian 64 8 bytes) := by
      intro memory' hd
      rw [(Post.of_ok (readWord_shown ⟨hr, hd⟩ hno) hrun).1]
    have hunique : ∀ value, ShowsWord m.memory (m.guest.regs .rsp).toNat value →
        value = ofLittleEndian 64 8 bytes := by
      intro value hvalue
      rw [← hvalue memory hs.depicts, ← hword memory hs.depicts]
    refine ⟨fun _ => ?_, fun h => absurd (hable.mp ⟨bytes, s', rfl⟩) h⟩
    by_cases hsentinel : returnSentinel = some (ofLittleEndian 64 8 bytes)
    · -- the run ends and RIP stays at the return
      rw [if_pos hsentinel] at hresult
      subst hresult
      constructor
      · intro h sentinel hs' hshows
        rw [hunique sentinel hshows]
        exact (hunique _ h.popped).symm
      · intro h
        have hrip := h _ hsentinel hword
        refine ⟨⟨false, rfl⟩, hsame, by simp, ?_⟩
        show ShowsWord m.memory _ rip
        rw [← hrip]
        exact hword
    · rw [if_neg hsentinel] at hresult
      subst hresult
      refine ⟨fun _ sentinel hs' hshows => ?_, fun _ => ⟨⟨true, rfl⟩, hsame, by simp, hword⟩⟩
      rw [hunique sentinel hshows] at hs'
      exact absurd hs' hsentinel

/-- A runtime whose accesses and helpers all fail. -/
def failingRuntime : Runtime AddressSpace Unit where
  load _ _ s := (.error (), s)
  store _ _ _ s := (.error (), s)
  helper _ _ g s := (.error (), g, s)

/-- A guest at `0x1000` with an unmapped stack. -/
def unmappedStack : GuestState where
  regs r := if r = .rsp then 0x9000 else 0
  rip := 0x1000
  rflags := 0x202
  xmm _ := (0, 0)
  ymmUpper _ := (0, 0)
  gsBase := 0

/-- `CALL 0x2000`. -/
def callBlock : DispatchedBlock where
  ir := ⟨0x1000, [(Terminator.callRelative 0x2000 0x1005).operation 0x1000], 0⟩

theorem not_able_unmapped {values : ValueId → BitVec 64} {g : GuestState}
    {target returnAddress : GuestAddress} :
    ¬(Terminator.callRelative target returnAddress).Able ⟨values, g, {}⟩ := by
  rintro ⟨-, hwrite⟩
  obtain ⟨i, m, hf⟩ := hwrite 0 (by decide)
  cases hf.index

/-- `MOV RAX, 1` and `CALL 0x2000`. -/
def moveCallBlock : DispatchedBlock where
  ir := ⟨0x1000,
    [{ opcode := .constant, guestRip := 0x1000, result := some 0, immediate := 1 },
      { opcode := .writeGuestReg, guestRip := 0x1000, lhs := some 0, guestRegister := some .rax },
      (Terminator.callRelative 0x2000 0x100F).operation 0x100A], 1⟩

/-- The machine at the call. -/
def movedMachine : Machine AddressSpace :=
  ⟨Function.update (fun _ => 0) 0 1, unmappedStack.setReg .rax 1, {}⟩

end Rosa
