import Rosa.Darwin.PortSpace
import Rosa.IR.Syntax
import Rosa.Logic.Codec

/-!
# Mach traps

`MachDispatcher::dispatch` of `darwin/Mach.cpp`, for what it does to the port space. The guest's
memory is any type with the accesses that `dispatch` makes, and so are the traps that change
memory and mappings only (allocation, deallocation, protection and mapping of memory, the
timebase) and the requests of `mach_msg2` that give out no right.

`mach_port_mod_refs` changes the send references of a port through `lookup` and does not know
the removal rule of `deallocateUref` : it can take the last right of a port and leave the port
and the names that remember it behind. In a run without such a call the port space keeps its
invariant.
-/

namespace Rosa.Darwin

/-- The guest's registers at a trap. -/
abbrev TrapArguments := Register → BitVec 64

/-- How a trap ends : a result in RAX, the error of an unsupported trap, or another
exception. -/
inductive TrapResult
  | returned (rax : BitVec 64)
  | unsupported
  | raised
  deriving DecidableEq, Repr

/-! ## Requests -/

/-- The requests of `mach_msg2` that are answered from the port space. -/
inductive MachRequest
  | hostBasicInfo | hostPriorityInfo | hostClockService | hostSpecialPort | taskSpecialPort
  | taskAuditToken | semaphoreCreate
  deriving DecidableEq, Repr

namespace MachRequest

/-- The requests, in the order in which `dispatch` tries them. -/
def all : List MachRequest :=
  [hostBasicInfo, hostPriorityInfo, hostClockService, hostSpecialPort, taskSpecialPort,
    taskAuditToken, semaphoreCreate]

/-- The message id. -/
def messageId : MachRequest → BitVec 32
  | hostBasicInfo | hostPriorityInfo => 200
  | hostClockService => 206
  | hostSpecialPort => 412
  | taskSpecialPort => 3409
  | taskAuditToken => 3405
  | semaphoreCreate => 3418

/-- The size of the message. -/
def requestSize : MachRequest → Nat
  | hostBasicInfo | hostPriorityInfo | hostSpecialPort | taskAuditToken | semaphoreCreate => 40
  | hostClockService | taskSpecialPort => 36

/-- The size of the receive buffer that the guest has to name. -/
def receiveCapacity : MachRequest → BitVec 32
  | hostBasicInfo | hostPriorityInfo => 320
  | taskAuditToken => 424
  | hostClockService | hostSpecialPort | taskSpecialPort | semaphoreCreate => 48

/-- The size of the reply with its trailer. -/
def receiveSize : MachRequest → Nat
  | hostBasicInfo => 96
  | hostPriorityInfo | taskAuditToken => 80
  | hostClockService | hostSpecialPort | taskSpecialPort | semaphoreCreate => 48

/-- The words of the body after the eight bytes of the NDR record. -/
def body : MachRequest → List (BitVec 32)
  | hostBasicInfo => [1, 12]
  | hostPriorityInfo => [5, 8]
  | hostClockService => [0]
  | hostSpecialPort => [0xFFFFFFFF, 1]
  | taskSpecialPort => [4]
  | taskAuditToken => [15, 8]
  | semaphoreCreate => [0, 0]

/-- The request is made of the host port, otherwise of the task itself. -/
def ofHost : MachRequest → Bool
  | hostBasicInfo | hostPriorityInfo | hostClockService | hostSpecialPort => true
  | taskSpecialPort | taskAuditToken | semaphoreCreate => false

end MachRequest

/-- `decodeGuestInteger`, for a word inside the message. -/
def wordAt (message : List Byte) (offset : Nat) : BitVec 32 :=
  ofLittleEndian 32 4 (message.drop offset)

/-- The low and the high half of a register. -/
def lowHalf (v : BitVec 64) : BitVec 32 := v.setWidth 32
def highHalf (v : BitVec 64) : BitVec 32 := (v >>> 32).setWidth 32

/-- `observedBits`. -/
def observedBits : BitVec 32 := 19 ||| (21 <<< 8)

/-- `nativeNdr`. -/
def nativeNdr : List Byte := [0, 0, 0, 0, 1, 0, 0, 0]

/-- `decodeObserved…Request`, one for each request. -/
def decodeObserved (request : MachRequest) (message : List Byte) (regs : TrapArguments)
    (receiveSizeAndPriority timeout : BitVec 64) (ports : GuestPortSpace) : Bool :=
  let remoteName := lowHalf (regs .r10)
  let localName := highHalf (regs .r10)
  regs .rsi == 0x200000003 && lowHalf (regs .rdx) == observedBits &&
    (highHalf (regs .rdx)).toNat == request.requestSize && localName == highHalf (regs .r9) &&
    lowHalf (regs .r8) == 0 && highHalf (regs .r8) == request.messageId &&
    lowHalf (regs .r9) == 0 && lowHalf receiveSizeAndPriority == request.receiveCapacity &&
    highHalf receiveSizeAndPriority == 0 && timeout == 0 &&
    message.length == request.requestSize &&
    (if request.ofHost then
      (ports.lookup remoteName).any fun port => port.type == .host && port.sendUrefs != 0
    else remoteName == taskSelfName &&
      (ports.lookup remoteName).any fun port => port.sendUrefs != 0) &&
    ((ports.lookup localName).any fun port => port.type == .reply && port.hasReceiveRight) &&
    wordAt message 0 == observedBits &&
    (wordAt message 4).toNat == request.requestSize && wordAt message 8 == remoteName &&
    wordAt message 12 == localName && wordAt message 16 == 0 &&
    wordAt message 20 == request.messageId && (message.drop 24).take 8 == nativeNdr &&
    request.body.zipIdx.all fun (word, i) => wordAt message (32 + 4 * i) == word

/-- The right that a request copies out. -/
def copyoutRight (request : MachRequest) (ports : GuestPortSpace) :
    Option (Option PortName × GuestPortSpace) :=
  match request with
  | .hostClockService => some (ports.copyoutClockSendRight 0 machPortUrefsMaximum)
  | .hostSpecialPort => some (ports.copyoutHostSendRight machPortUrefsMaximum)
  | .taskSpecialPort => some (ports.copyoutBootstrapSendRight machPortUrefsMaximum)
  | .semaphoreCreate => some (ports.allocateSemaphoreSendRight 0 0)
  | _ => none

/-! ## The dispatcher -/

/-- The guest's memory as `dispatch` uses it. A failed access may still have changed caches. -/
structure MachServices (A : Type) where
  /-- `validateAccess` for writing. -/
  validateWrite : GuestAddress → Nat → A → Bool × A
  readBytes : GuestAddress → Nat → A → Option (List Byte) × A
  readU64 : GuestAddress → A → Option (BitVec 64) × A
  writeBytes : GuestAddress → List Byte → A → Bool × A
  /-- The traps that change memory and mappings only. -/
  memoryTrap : Nat → TrapArguments → A → TrapResult × A
  /-- The requests that change memory and mappings only, and messages that are no request. -/
  memoryRequest : TrapArguments → GuestPortSpace → BitVec 64 → BitVec 64 → List Byte → A →
    TrapResult × A
  /-- `inspectUnsupportedMachMessage2`, for what it reads. -/
  inspect : TrapArguments → A → A
  /-- The reply to a request, with the right that was copied out. -/
  encodeReply : MachRequest → TrapArguments → Option PortName → List Byte

/-- `MachDispatcher`. -/
structure MachDispatcher where
  portSpace : GuestPortSpace
  specialReplyPort : Option PortName
  vouchers : List (BitVec 64)
  nextVoucher : BitVec 64

/-- A new dispatcher. -/
def MachDispatcher.initial : MachDispatcher where
  portSpace := .initial
  specialReplyPort := none
  vouchers := []
  nextVoucher := 1

section

variable {A : Type} (services : MachServices A) (regs : TrapArguments) (d : MachDispatcher)
  (memory : A)

/-- A trap on a task other than the guest's own. -/
def onTaskSelf (act : TrapResult × MachDispatcher × A) : TrapResult × MachDispatcher × A :=
  if regs .rdi = taskSelfName.setWidth 64 then act else (.returned 0x10000003, d, memory)

/-- A receive right is made and its name copied out; a failed copyout takes it back. -/
def allocateAndCopyOut (port : GuestPort) (output : GuestAddress) (memory : A) :
    TrapResult × MachDispatcher × A :=
  match d.portSpace.allocateReceiveRight port with
  | (none, ports) => (.returned 3, { d with portSpace := ports }, memory)
  | (some name, ports) =>
    match services.writeBytes output (littleEndian 4 name) memory with
    | (true, memory) => (.returned 0, { d with portSpace := ports }, memory)
    | (false, memory) =>
      (.returned 1, { d with portSpace := ports.rollbackLastAllocation name }, memory)

/-- Trap 16, `mach_port_allocate`. -/
def portAllocate : TrapResult × MachDispatcher × A :=
  onTaskSelf regs d memory <|
    let right := lowHalf (regs .rsi)
    if right = 1 ∨ right = 3 then
      allocateAndCopyOut services d
        { type := if right = 3 then .portSet else .ordinary, queueLimit := 5 } (regs .rdx) memory
    else (.returned 18, d, memory)

/-- Trap 18, `mach_port_deallocate`. -/
def portDeallocate : TrapResult × MachDispatcher × A :=
  onTaskSelf regs d memory <|
    let (result, ports) := d.portSpace.deallocateUref (lowHalf (regs .rsi))
    let rax := match result with
      | .success => 0
      | .invalidName => 15
      | .invalidRight => 17
    (.returned rax, { d with portSpace := ports }, memory)

/-- Trap 19, `mach_port_mod_refs`. -/
def portModRefs : TrapResult × MachDispatcher × A :=
  onTaskSelf regs d memory <|
    let right := lowHalf (regs .rdx)
    let name := lowHalf (regs .rsi)
    if 6 ≤ right then (.returned 18, d, memory)
    else
      match d.portSpace.lookup name with
      | none => (.returned 15, d, memory)
      | some port =>
        if port.sendUrefs = 0 then (.returned 15, d, memory)
        else if right ≠ 0 then (.returned 17, d, memory)
        else
          let updated := (port.sendUrefs : Int) + (lowHalf (regs .r10)).toInt
          if updated < 0 then (.returned 18, d, memory)
          else if machPortUrefsMaximum < updated then (.returned 19, d, memory)
          else
            (.returned 0, { d with
              portSpace := d.portSpace.setPort name
                (some { port with sendUrefs := updated.toNat }) }, memory)

/-- Trap 22, `mach_port_insert_member`. -/
def portInsertMember : TrapResult × MachDispatcher × A :=
  onTaskSelf regs d memory <|
    let set := lowHalf (regs .rdx)
    match d.portSpace.lookup (lowHalf (regs .rsi)), d.portSpace.lookup set with
    | some member, some portSet =>
      if portSet.type ≠ .portSet ∨ !member.hasReceiveRight ∨ member.type = .portSet then
        (.returned 17, d, memory)
      else if portSet.members.contains member.name then (.returned 0, d, memory)
      else
        (.returned 0, { d with
          portSpace := d.portSpace.setPort set
            (some { portSet with members := portSet.members ++ [member.name] }) }, memory)
    | _, _ => (.returned 15, d, memory)

/-- The port that the options of `mach_port_construct` describe. -/
def constructedPort (flags queueLimit : BitVec 32) (context : BitVec 64) : GuestPort :=
  let has (bit : BitVec 32) : Bool := flags &&& bit != 0
  let port : GuestPort :=
    { type := if has 0x1000 then .reply else .ordinary
      context := context
      queueLimit := if has 0x02 then queueLimit else 5
      optionFlags := flags }
  if has 0x1000 then port
  else
    { port with
      sendUrefs := if has 0x10 then 1 else 0
      guarded := has 0x01
      guard := if has 0x01 then context else 0
      strictGuard := has 0x20 }

/-- Trap 24, `mach_port_construct`. -/
def portConstruct : TrapResult × MachDispatcher × A :=
  onTaskSelf regs d memory <|
    match services.readBytes (regs .rsi) 24 memory with
    | (none, memory) => (.returned 1, d, memory)
    | (some options, memory) =>
      let flags := wordAt options 0
      if flags &&& ~~~0x1033 ≠ 0 ∨ (flags &&& 0x1000 ≠ 0 ∧ flags &&& ~~~0x1000 ≠ 0) then
        (.unsupported, d, memory)
      else
        match services.validateWrite (regs .r10) 4 memory with
        | (false, memory) => (.returned 1, d, memory)
        | (true, memory) =>
          allocateAndCopyOut services d (constructedPort flags (wordAt options 4) (regs .rdx))
            (regs .r10) memory

/-- Trap 26, `mach_reply_port`. -/
def replyPort : TrapResult × MachDispatcher × A :=
  let (name, ports) := d.portSpace.allocateReceiveRight { type := .reply, queueLimit := 5 }
  (.returned (name.elim 0 (·.setWidth 64)), { d with portSpace := ports }, memory)

/-- Traps 27 and 29 : a send right that is copied out as the result. -/
def selfTrap (copyout : GuestPortSpace → Option PortName × GuestPortSpace) :
    TrapResult × MachDispatcher × A :=
  let (name, ports) := copyout d.portSpace
  (.returned (name.elim 0 (·.setWidth 64)), { d with portSpace := ports }, memory)

/-- Trap 28, `task_self`. -/
def taskSelf : TrapResult × MachDispatcher × A :=
  match d.portSpace.lookup taskSelfName with
  | none => (.raised, d, memory)
  | some port =>
    if port.sendUrefs = machPortUrefsMaximum then (.returned 0, d, memory)
    else
      (.returned (taskSelfName.setWidth 64), { d with
        portSpace := d.portSpace.setPort taskSelfName
          (some { port with sendUrefs := port.sendUrefs + 1 }) }, memory)

/-- The answer to a request. -/
def answer (request : MachRequest) : TrapResult × MachDispatcher × A :=
  match services.validateWrite (regs .rdi) request.receiveSize memory with
  | (false, memory) => (.unsupported, d, services.inspect regs memory)
  | (true, memory) =>
    let reply (d : MachDispatcher) (right : Option PortName) : TrapResult × MachDispatcher × A :=
      match services.writeBytes (regs .rdi) (services.encodeReply request regs right) memory with
      | (true, memory) => (.returned 0, d, memory)
      | (false, memory) => (.raised, d, memory)
    match copyoutRight request d.portSpace with
    | none => reply d none
    | some (none, ports) =>
      (.unsupported, { d with portSpace := ports }, services.inspect regs memory)
    | some (some right, ports) => reply { d with portSpace := ports } (some right)

/-- Trap 47, `mach_msg2`. -/
def machMessage2 : TrapResult × MachDispatcher × A :=
  if lowHalf (regs .rsi) &&& 1 = 0 then
    (.returned (if d.portSpace.ownsReceiveRight (highHalf (regs .r9)) then 0x10004003
      else 0x10004002), d, memory)
  else if 2 ^ 64 - 1 - 16 < (regs .rsp).toNat then
    (.unsupported, d, services.inspect regs memory)
  else
    match services.readU64 (regs .rsp + 8) memory with
    | (none, memory) => (.unsupported, d, services.inspect regs memory)
    | (some receiveSizeAndPriority, memory) =>
      match services.readU64 (regs .rsp + 16) memory with
      | (none, memory) => (.unsupported, d, services.inspect regs memory)
      | (some timeout, memory) =>
        match services.readBytes (regs .rdi) (highHalf (regs .rdx)).toNat memory with
        | (none, memory) => (.unsupported, d, services.inspect regs memory)
        | (some message, memory) =>
          if (d.portSpace.lookup (lowHalf (regs .r10))).any (·.type == .bootstrap) then
            (.returned 0x10000003, d, memory)
          else
            match MachRequest.all.find? fun request =>
                decodeObserved request message regs receiveSizeAndPriority timeout d.portSpace with
            | some request => answer services regs d memory request
            | none =>
              let (result, memory) := services.memoryRequest regs d.portSpace
                receiveSizeAndPriority timeout message memory
              (result, d, memory)

/-- Trap 50, `thread_get_special_reply_port`. -/
def specialReplyPort : TrapResult × MachDispatcher × A :=
  match d.specialReplyPort with
  | some name => (.returned (name.setWidth 64), d, memory)
  | none =>
    match d.portSpace.allocateReceiveRight { type := .reply, queueLimit := 5 } with
    | (none, ports) => (.returned 0, { d with portSpace := ports }, memory)
    | (some name, ports) =>
      (.returned (name.setWidth 64), { d with portSpace := ports, specialReplyPort := some name },
        memory)

/-- Trap 70, `host_create_mach_voucher`. -/
def createVoucher : TrapResult × MachDispatcher × A :=
  if !(d.portSpace.lookup (lowHalf (regs .rdi))).any (fun port =>
      port.type == .host && port.sendUrefs != 0) ∨ regs .r10 = 0 ∨ 0x100000 < regs .rdx then
    (.returned 4, d, memory)
  else
    match services.readBytes (regs .rsi) (regs .rdx).toNat memory with
    | (none, memory) => (.returned 1, d, memory)
    | (some _, memory) =>
      match services.validateWrite (regs .r10) 8 memory with
      | (false, memory) => (.returned 1, d, memory)
      | (true, memory) =>
        let voucher := d.nextVoucher
        let minted := { d with
          vouchers := d.vouchers.insert voucher, nextVoucher := d.nextVoucher + 1 }
        match services.writeBytes (regs .r10) (littleEndian 8 voucher) memory with
        | (true, memory) => (.returned 0, minted, memory)
        | (false, memory) =>
          (.returned 1, { minted with vouchers := minted.vouchers.erase voucher }, memory)

/-- Trap 91, `mk_timer_create`. -/
def timerCreate : TrapResult × MachDispatcher × A :=
  let (name, ports) := d.portSpace.allocateReceiveRight { type := .timer, queueLimit := 5 }
  (.returned (name.elim 3 (·.setWidth 64)), { d with portSpace := ports }, memory)

/-- `isMachTrap`. -/
def isMachTrap (number : BitVec 64) : Bool := number &&& 0xFF000000 == 0x1000000

/-- `trapNumber`. -/
def trapNumber (number : BitVec 64) : Nat := (number &&& 0xFFFFFF).toNat

/-- `dispatch`. -/
def dispatch : TrapResult × MachDispatcher × A :=
  if !isMachTrap (regs .rax) then (.unsupported, d, memory)
  else
    match trapNumber (regs .rax) with
    | 16 => portAllocate services regs d memory
    | 18 => portDeallocate regs d memory
    | 19 => portModRefs regs d memory
    | 22 => portInsertMember regs d memory
    | 24 => portConstruct services regs d memory
    | 26 => replyPort d memory
    | 27 => selfTrap d memory (·.copyoutThreadSendRight machPortUrefsMaximum)
    | 28 => taskSelf d memory
    | 29 => selfTrap d memory (·.copyoutHostSendRight machPortUrefsMaximum)
    | 47 => machMessage2 services regs d memory
    | 50 => specialReplyPort d memory
    | 70 => createVoucher services regs d memory
    | 91 => timerCreate d memory
    | number =>
      if [10, 12, 14, 15, 89].contains number then
        let (result, memory) := services.memoryTrap number regs memory
        (result, d, memory)
      else (.unsupported, d, memory)

/-! ## What a trap keeps -/

/-- `mach_port_mod_refs` takes the last right of a port, which then should go. The port of the
task itself may be without rights. -/
def TakesLastRight (regs : TrapArguments) (ports : GuestPortSpace) : Prop :=
  isMachTrap (regs .rax) = true ∧ trapNumber (regs .rax) = 19 ∧
    regs .rdi = taskSelfName.setWidth 64 ∧ lowHalf (regs .rdx) = 0 ∧
    lowHalf (regs .rsi) ≠ taskSelfName ∧
    ∃ port, ports.lookup (lowHalf (regs .rsi)) = some port ∧ port.hasReceiveRight = false ∧
      port.sendOnceUrefs = 0 ∧ port.sendUrefs ≠ 0 ∧
      (port.sendUrefs : Int) + (lowHalf (regs .r10)).toInt = 0

variable {regs d memory}

open GuestPortSpace

section

variable {strips : Prop}

theorem portStep_onTaskSelf {act : TrapResult × MachDispatcher × A}
    (hact : regs .rdi = taskSelfName.setWidth 64 →
      PortStep strips d.portSpace act.2.1.portSpace) :
    PortStep strips d.portSpace (onTaskSelf regs d memory act).2.1.portSpace := by
  unfold onTaskSelf
  split
  · next hself => exact hact hself
  · exact .refl

/-- A failed copyout gives the port space back as it was. -/
theorem portStep_allocateAndCopyOut (h : Numbered d.portSpace) {port : GuestPort}
    (hbound : port.Bounded) (htype : port.type ∉ [.host, .thread, .bootstrap, .clock])
    (output : GuestAddress) :
    PortStep strips d.portSpace
      (allocateAndCopyOut services d port output memory).2.1.portSpace := by
  unfold allocateAndCopyOut GuestPortSpace.allocateReceiveRight
  rcases h.allocatePort_eq { port with hasReceiveRight := true } with ⟨-, heq⟩ | ⟨hle, heq⟩
  · rw [heq]
    exact .refl
  · rw [heq]
    dsimp only
    split
    · exact .add hle (.inl rfl) hbound fun ht => absurd ht htype
    · rw [h.rollback_added hle]
      · exact .refl
      · rintro hclock
        exact htype (by simp_all)

theorem allocatedPort_bounded (right : BitVec 32) :
    let port : GuestPort := { type := if right = 3 then .portSet else .ordinary, queueLimit := 5 }
    port.Bounded ∧ port.type ∉ [.host, .thread, .bootstrap, .clock] := by
  refine ⟨⟨Nat.zero_le _, Nat.zero_le _⟩, ?_⟩
  dsimp only
  split <;> decide

theorem portStep_portAllocate (h : Numbered d.portSpace) :
    PortStep strips d.portSpace (portAllocate services regs d memory).2.1.portSpace := by
  refine portStep_onTaskSelf fun _ => ?_
  dsimp only
  split
  · obtain ⟨hbound, htype⟩ := allocatedPort_bounded (lowHalf (regs .rsi))
    exact portStep_allocateAndCopyOut services h hbound htype _
  · exact .refl

theorem portStep_portInsertMember :
    PortStep strips d.portSpace (portInsertMember regs d memory).2.1.portSpace := by
  refine portStep_onTaskSelf fun _ => ?_
  dsimp only
  split
  · next member portSet _ hset =>
    split
    · exact .refl
    · split
      · exact .refl
      · exact .change hset rfl rfl rfl rfl le_rfl id fun _ hright => .inr hright
  · exact .refl

theorem constructedPort_bounded (flags queueLimit : BitVec 32) (context : BitVec 64) :
    (constructedPort flags queueLimit context).Bounded ∧
      (constructedPort flags queueLimit context).type ∉ [.host, .thread, .bootstrap, .clock] := by
  simp only [constructedPort]
  split
  · exact ⟨⟨Nat.zero_le _, Nat.zero_le _⟩, by simp⟩
  · refine ⟨⟨?_, Nat.zero_le _⟩, by simp⟩
    dsimp only
    split <;> decide

theorem portStep_portConstruct (h : Numbered d.portSpace) :
    PortStep strips d.portSpace (portConstruct services regs d memory).2.1.portSpace := by
  refine portStep_onTaskSelf fun _ => ?_
  split
  · exact .refl
  · dsimp only
    split
    · exact .refl
    · split
      · exact .refl
      · obtain ⟨hbound, htype⟩ := constructedPort_bounded (wordAt _ 0) (wordAt _ 4) (regs .rdx)
        exact portStep_allocateAndCopyOut services h hbound htype _

theorem portStep_taskSelf : PortStep strips d.portSpace (taskSelf d memory).2.1.portSpace := by
  unfold taskSelf
  split
  · exact .refl
  · next port hp =>
    split
    · exact .refl
    · next hmax =>
      exact .change hp rfl rfl rfl rfl le_rfl (fun hbound => by simp only; omega)
        fun hne => absurd rfl hne

theorem portStep_copyoutRight (h : Numbered d.portSpace) {request : MachRequest}
    {right : Option PortName} {ports : GuestPortSpace}
    (hcopy : copyoutRight request d.portSpace = some (right, ports)) :
    PortStep strips d.portSpace ports := by
  cases request with
  | hostClockService =>
    obtain rfl := congrArg Prod.snd (Option.some.inj hcopy)
    exact h.copyoutClockSendRight 0
  | hostSpecialPort =>
    obtain rfl := congrArg Prod.snd (Option.some.inj hcopy)
    exact h.copyoutHostSendRight
  | taskSpecialPort =>
    obtain rfl := congrArg Prod.snd (Option.some.inj hcopy)
    exact h.copyoutBootstrapSendRight
  | semaphoreCreate =>
    obtain rfl := congrArg Prod.snd (Option.some.inj hcopy)
    exact h.allocateSemaphoreSendRight 0 0
  | hostBasicInfo => cases hcopy
  | hostPriorityInfo => cases hcopy
  | taskAuditToken => cases hcopy

theorem portStep_answer (h : Numbered d.portSpace) (request : MachRequest) :
    PortStep strips d.portSpace (answer services regs d memory request).2.1.portSpace := by
  unfold answer
  split
  · exact .refl
  · dsimp only
    split
    · split
      · exact .refl
      · exact .refl
    · next hcopy => exact portStep_copyoutRight h hcopy
    · next hcopy =>
      split
      · exact portStep_copyoutRight h hcopy
      · exact portStep_copyoutRight h hcopy

theorem portStep_machMessage2 (h : Numbered d.portSpace) :
    PortStep strips d.portSpace (machMessage2 services regs d memory).2.1.portSpace := by
  unfold machMessage2
  split
  · exact .refl
  · split
    · exact .refl
    · split
      · exact .refl
      · split
        · exact .refl
        · split
          · exact .refl
          · split
            · exact .refl
            · split
              · exact portStep_answer services h _
              · exact .refl

theorem portStep_specialReplyPort (h : Numbered d.portSpace) :
    PortStep strips d.portSpace (specialReplyPort d memory).2.1.portSpace := by
  have hstep : PortStep strips d.portSpace
      (d.portSpace.allocateReceiveRight { type := .reply, queueLimit := 5 }).2 :=
    h.allocateReceiveRight ⟨Nat.zero_le _, Nat.zero_le _⟩ (by decide)
  unfold specialReplyPort
  split
  · exact .refl
  · split
    · next heq =>
      rw [heq] at hstep
      exact hstep
    · next heq =>
      rw [heq] at hstep
      exact hstep

theorem portStep_createVoucher :
    PortStep strips d.portSpace (createVoucher services regs d memory).2.1.portSpace := by
  unfold createVoucher
  split
  · exact .refl
  · split
    · exact .refl
    · split
      · exact .refl
      · dsimp only
        split
        · exact .refl
        · exact .refl

end

theorem portStep_portModRefs (htrap : isMachTrap (regs .rax) = true)
    (hnumber : trapNumber (regs .rax) = 19) :
    PortStep (TakesLastRight regs d.portSpace) d.portSpace
      (portModRefs regs d memory).2.1.portSpace := by
  refine portStep_onTaskSelf fun hself => ?_
  dsimp only
  split
  · exact .refl
  · split
    · exact .refl
    · next port hp =>
      split
      · exact .refl
      · next hsome =>
        split
        · exact .refl
        · next hright =>
          split
          · exact .refl
          · split
            · exact .refl
            · next hneg hmax =>
              refine .change hp rfl rfl rfl rfl le_rfl (fun _ => by simp only; omega)
                fun hne _ => or_iff_not_imp_right.mpr fun hnone => ?_
              -- a port left without rights has lost its last one here
              simp only [GuestPort.Righted, not_or, not_not, Bool.not_eq_true] at hnone
              exact ⟨htrap, hnumber, hself, not_not.mp hright, hne, port, hp, hnone.1,
                hnone.2.2, hsome, by omega⟩

/-- A trap is a step of the port space. -/
theorem portStep_dispatch (h : Numbered d.portSpace) :
    PortStep (TakesLastRight regs d.portSpace) d.portSpace
      (dispatch services regs d memory).2.1.portSpace := by
  unfold dispatch
  split
  · exact .refl
  · next htrap =>
    split
    · exact portStep_portAllocate services h
    · exact portStep_onTaskSelf fun _ => portStep_deallocateUref _ _
    · next hnumber => exact portStep_portModRefs (by simpa using htrap) hnumber
    · exact portStep_portInsertMember
    · exact portStep_portConstruct services h
    · exact h.allocateReceiveRight ⟨Nat.zero_le _, Nat.zero_le _⟩ (by decide)
    · exact h.copyoutThreadSendRight
    · exact portStep_taskSelf
    · exact h.copyoutHostSendRight
    · exact portStep_machMessage2 services h
    · exact portStep_specialReplyPort h
    · exact portStep_createVoucher services
    · exact h.allocateReceiveRight ⟨Nat.zero_le _, Nat.zero_le _⟩ (by decide)
    · split
      · exact .refl
      · exact .refl

theorem inv_dispatch (h : Inv d.portSpace) (hlast : ¬TakesLastRight regs d.portSpace) :
    Inv (dispatch services regs d memory).2.1.portSpace :=
  h.step hlast (portStep_dispatch services h.numbered)

/-! ## Runs -/

/-- A remembered name denotes a port of its type with a send right. -/
def Remembered (s : GuestPortSpace) (name : Option PortName) (type : GuestPortType) : Prop :=
  ∀ n, name = some n → ∃ p, s.lookup n = some p ∧ p.type = type ∧ p.sendUrefs ≠ 0

/-- A send right is refused only at the limit of references, or when the names are used up. -/
def RefusedAtLimit (s : GuestPortSpace) (name : Option PortName)
    (copyout : Option PortName × GuestPortSpace) : Prop :=
  copyout.1 = none →
    (∃ n p, name = some n ∧ s.lookup n = some p ∧ p.sendUrefs = machPortUrefsMaximum) ∨
      lastName < s.nextSyntheticName

/-- What a port space promises the guest. -/
structure WellKept (s : GuestPortSpace) : Prop where
  righted : ∀ n p, s.lookup n = some p → n ≠ taskSelfName → p.Righted
  host : Remembered s s.hostSelfName .host
  thread : Remembered s s.threadSelfName .thread
  bootstrap : Remembered s s.bootstrapName .bootstrap
  clock : ∀ id, Remembered s (s.clockServiceNames id) .clock
  named : ∀ n p, s.lookup n = some p → p.name = n ∧ n ≠ 0 ∧ n ≠ 0xFFFFFFFF
  bounded : ∀ n p, s.lookup n = some p → p.Bounded
  hostSelf : RefusedAtLimit s s.hostSelfName (s.copyoutHostSendRight machPortUrefsMaximum)
  threadSelf : RefusedAtLimit s s.threadSelfName (s.copyoutThreadSendRight machPortUrefsMaximum)
  bootstrapSelf :
    RefusedAtLimit s s.bootstrapName (s.copyoutBootstrapSendRight machPortUrefsMaximum)

section

variable {s : GuestPortSpace}

theorem GuestPortSpace.Inv.remembered (h : Inv s) {n : PortName} {p : GuestPort}
    (hp : s.ports n = some p) (htype : p.type ∈ [.host, .thread, .bootstrap, .clock]) :
    p.sendUrefs ≠ 0 := by
  refine GuestPort.sendUrefs_ne_zero (h.righted n p hp ?_) (h.sendOnly n p hp) htype
  rintro rfl
  obtain ⟨q, hq, hty⟩ := h.task
  obtain rfl : p = q := by simpa [hp] using hq
  rw [hty] at htype
  exact absurd htype (by decide)

/-- A send right on a remembered port is refused at the limit. -/
theorem GuestPortSpace.Inv.addSendRight_none (h : Inv s) {n : PortName} {p : GuestPort}
    {ok : GuestPort → Bool} (hp : s.ports n = some p)
    (htype : p.type ∈ [.host, .thread, .bootstrap, .clock]) (hok : ok p = true)
    (hnone : (s.addSendRight n ok machPortUrefsMaximum).1 = none) :
    p.sendUrefs = machPortUrefsMaximum := by
  have hsend := h.remembered hp htype
  unfold GuestPortSpace.addSendRight GuestPortSpace.lookup at hnone
  rw [hp] at hnone
  by_contra hmax
  simp [hok, hsend, hmax] at hnone

/-- A new port is refused when the names are used up. -/
theorem GuestPortSpace.Inv.allocatePort_none (h : Inv s) {attributes : GuestPort}
    (hnone : (s.allocatePort attributes).1 = none) : lastName < s.nextSyntheticName := by
  rcases h.numbered.allocatePort_eq attributes with ⟨hlt, -⟩ | ⟨-, heq⟩
  · exact hlt
  · rw [heq] at hnone
    cases hnone

/-- The invariant gives what is promised. -/
theorem GuestPortSpace.Inv.wellKept (h : Inv s) : WellKept s := by
  refine ⟨h.righted, ?_, ?_, ?_, ?_, ?_, h.bounded, ?_, ?_, ?_⟩
  · intro n hn
    obtain ⟨p, hp, hty⟩ := h.host n hn
    exact ⟨p, hp, hty, h.remembered hp (by rw [hty]; decide)⟩
  · intro n hn
    obtain ⟨p, hp, hty⟩ := h.thread n hn
    exact ⟨p, hp, hty, h.remembered hp (by rw [hty]; decide)⟩
  · intro n hn
    obtain ⟨p, hp, hty⟩ := h.bootstrap n hn
    exact ⟨p, hp, hty, h.remembered hp (by rw [hty]; decide)⟩
  · intro id n hn
    obtain ⟨p, hp, hty, -⟩ := h.clock id n hn
    exact ⟨p, hp, hty, h.remembered hp (by rw [hty]; decide)⟩
  · intro n p hp
    obtain ⟨hmod, -⟩ := h.aligned n p hp
    refine ⟨h.named n p hp, ?_, ?_⟩
    · rintro rfl
      cases hmod
    · rintro rfl
      cases hmod
  · intro hnone
    unfold GuestPortSpace.copyoutHostSendRight at hnone
    split at hnone
    · next n hn =>
      obtain ⟨p, hp, hty⟩ := h.host n hn
      exact .inl ⟨n, p, hn, hp,
        h.addSendRight_none hp (by rw [hty]; decide) (by simpa using hty) hnone⟩
    · exact .inr (h.allocatePort_none hnone)
  · intro hnone
    unfold GuestPortSpace.copyoutThreadSendRight at hnone
    split at hnone
    · next n hn =>
      obtain ⟨p, hp, hty⟩ := h.thread n hn
      exact .inl ⟨n, p, hn, hp,
        h.addSendRight_none hp (by rw [hty]; decide) (by simpa using hty) hnone⟩
    · exact .inr (h.allocatePort_none hnone)
  · intro hnone
    unfold GuestPortSpace.copyoutBootstrapSendRight at hnone
    split at hnone
    · next n hn =>
      obtain ⟨p, hp, hty⟩ := h.bootstrap n hn
      exact .inl ⟨n, p, hn, hp,
        h.addSendRight_none hp (by rw [hty]; decide) (by simpa using hty) hnone⟩
    · exact .inr (h.allocatePort_none hnone)

end

/-- The traps of a run, one after the other. The guest runs in between : its registers and its
memory at a trap are any. -/
def dispatchAll : List (TrapArguments × A) → MachDispatcher → MachDispatcher
  | [], d => d
  | (regs, memory) :: rest, d => dispatchAll rest (dispatch services regs d memory).2.1

/-- No trap of the run takes the last right of a port by `mach_port_mod_refs`. -/
def Careful : List (TrapArguments × A) → MachDispatcher → Prop
  | [], _ => True
  | (regs, memory) :: rest, d =>
    ¬TakesLastRight regs d.portSpace ∧ Careful rest (dispatch services regs d memory).2.1

/-- A port that lost its last right stays behind. -/
theorem not_wellKept_of_takesLastRight (hlast : TakesLastRight regs d.portSpace) :
    ¬WellKept (dispatch services regs d memory).2.1.portSpace := by
  obtain ⟨htrap, hnumber, hself, hright, hne, port, hp, hreceive, honce, hsome, hsum⟩ := hlast
  intro hkept
  refine absurd (hkept.righted (lowHalf (regs .rsi)) { port with sendUrefs := 0 } ?_ hne) ?_
  · have hmod : portModRefs regs d memory = (.returned 0, { d with
        portSpace := d.portSpace.setPort (lowHalf (regs .rsi))
          (some { port with sendUrefs := 0 }) }, memory) := by
      simp [portModRefs, onTaskSelf, hself, hright, hp, hsome, hsum]
    simp [dispatch, htrap, hnumber, hmod, GuestPortSpace.lookup, GuestPortSpace.setPort]
  · simp [GuestPort.Righted, hreceive, honce]

theorem wellKept_dispatchAll (traps : List (TrapArguments × A)) (h : Inv d.portSpace) :
    (∀ n, WellKept (dispatchAll services (traps.take n) d).portSpace) ↔
      Careful services traps d := by
  induction traps generalizing d with
  | nil => simpa [dispatchAll, Careful] using h.wellKept
  | cons trap rest ih =>
    obtain ⟨regs, memory⟩ := trap
    constructor
    · intro hkept
      have hstep : ¬TakesLastRight regs d.portSpace := fun hlast =>
        not_wellKept_of_takesLastRight services hlast (hkept 1)
      exact ⟨hstep, (ih (inv_dispatch services h hstep)).mp fun n => hkept (n + 1)⟩
    · rintro ⟨hstep, hrest⟩ n
      cases n with
      | zero => exact h.wellKept
      | succ n => exact (ih (inv_dispatch services h hstep)).mpr hrest n

/-- In a run the port space is kept well after every trap exactly when no trap takes the last
right of a port by `mach_port_mod_refs`. -/
theorem wellKept_run_iff (traps : List (TrapArguments × A)) :
    (∀ n, WellKept (dispatchAll services (traps.take n) .initial).portSpace) ↔
      Careful services traps .initial :=
  wellKept_dispatchAll services traps inv_initial

end

/-- A guest without memory. -/
def noMemory : MachServices Unit where
  validateWrite _ _ memory := (false, memory)
  readBytes _ _ memory := (none, memory)
  readU64 _ memory := (none, memory)
  writeBytes _ _ memory := (false, memory)
  memoryTrap _ _ memory := (.returned 1, memory)
  memoryRequest _ _ _ _ _ memory := (.unsupported, memory)
  inspect _ memory := memory
  encodeReply _ _ _ := []

/-- `host_self`. -/
def hostSelfArguments : TrapArguments
  | .rax => 0x100001D
  | _ => 0

/-- `mach_port_mod_refs` takes one send right of the port under `0x203`. -/
def dropHostArguments : TrapArguments
  | .rax => 0x1000013
  | .rdi => 0x103
  | .rsi => 0x203
  | .r10 => 0xFFFFFFFF
  | _ => 0

/-- The host port stays without a right, and its name stays remembered. -/
theorem not_wellKept_dropHost :
    ¬WellKept (dispatchAll noMemory [(hostSelfArguments, ()), (dropHostArguments, ())]
      .initial).portSpace := by
  intro h
  obtain ⟨p, hp, -, hsend⟩ := h.host 0x203 (by decide +kernel)
  have hport : (dispatchAll noMemory [(hostSelfArguments, ()), (dropHostArguments, ())]
      .initial).portSpace.lookup 0x203 = some { name := 0x203, type := .host } := by
    decide +kernel
  rw [hport] at hp
  cases hp
  exact hsend rfl

end Rosa.Darwin
