import Rosa.Darwin.MachTraps
import Rosa.Darwin.SlideInfo
import Rosa.Guest.SettledPages

/-!
# Mach traps on the guest's memory

The rest of `MachDispatcher::dispatch` : the traps and requests that change memory and mappings,
on the address space. An access that throws is caught where the source catches it, and the trap
returns an error; elsewhere the exception leaves `dispatch`.

A trap that fails should leave everything as it was. Ports and vouchers are rolled back, and
accesses that throw have stored nothing, but a lazy page whose callback throws may be left half
transformed, and `mach_timebase_info` writes its two words one after the other. If no buffer of
the trap touches a page whose callback throws, a failed trap changes nothing; `mach_vm_map`
alone keeps its mapping when its result cannot be written.
-/

namespace Rosa.Darwin

open Rosa.Computation Rosa.AddressSpace

/-! ## Placing mappings -/

/-- `alignUp`. -/
def alignUp (value mask : BitVec 64) : Option (BitVec 64) :=
  if BitVec.allOnes 64 - mask < value then none else some ((value + mask) &&& ~~~mask)

/-- `minimumAnywhereAddress` and `maximumUserMapEnd`. -/
def minimumAnywhereAddress : BitVec 64 := 0x100000000
def maximumUserMapEnd : BitVec 64 := 0x7FFFFFFFF000

/-- The loop of `findAnywhereRange`. -/
def anywhereFrom (size alignmentMask : BitVec 64) : List Mapping → BitVec 64 → Option (BitVec 64)
  | [], candidate =>
    if candidate ≤ maximumUserMapEnd ∧ size ≤ maximumUserMapEnd - candidate then some candidate
    else none
  | m :: rest, candidate =>
    let base := BitVec.ofNat 64 m.base
    let mappingEnd := base + BitVec.ofNat 64 m.size
    if mappingEnd ≤ candidate then anywhereFrom size alignmentMask rest candidate
    else if candidate ≤ base ∧ size ≤ base - candidate then some candidate
    else
      match alignUp mappingEnd alignmentMask with
      | none => none
      | some next => anywhereFrom size alignmentMask rest next

/-- `findAnywhereRange`. -/
def findAnywhereRange (mappings : List Mapping) (hint size alignmentMask : BitVec 64) :
    Option (BitVec 64) :=
  match alignUp (if hint < minimumAnywhereAddress then minimumAnywhereAddress else hint)
      alignmentMask with
  | none => none
  | some candidate =>
    anywhereFrom size alignmentMask (mappings.mergeSort fun a b => a.base ≤ b.base) candidate

/-- `permissionsFromProtection`. -/
def permissionsFromProtection (protection : BitVec 64) : Permission where
  read := protection &&& 1 != 0
  write := protection &&& 2 != 0
  execute := protection &&& 4 != 0

/-- The mask of the offset in a page. -/
def guestPageMask : BitVec 64 := 4095

/-! ## Accesses -/

/-- An access whose exception is caught. -/
def caught {α : Type} (x : Access α) (s : AddressSpace) : Option α × AddressSpace :=
  match x s with
  | (.ok a, s) => (some a, s)
  | (.error _, s) => (none, s)

/-- `AddressSpace::readU64`. -/
def readGuestU64 (address : GuestAddress) : Access (BitVec 64) := do
  let bytes ← readWord address.toNat 8
  pure (ofLittleEndian 64 8 bytes)

/-- The result of a trap whose last calls may throw, and are not caught. -/
def uncaught (x : Access Unit) (s : AddressSpace) : TrapResult × AddressSpace :=
  match x s with
  | (.ok (), s) => (.returned 0, s)
  | (.error _, s) => (.raised, s)

/-! ## The traps -/

section

variable (refused : Option String) (regs : TrapArguments) (s : AddressSpace)

/-- Trap 10, `mach_vm_allocate`. -/
def vmAllocate : TrapResult × AddressSpace :=
  if regs .rdi ≠ taskSelfName.setWidth 64 then (.returned 0x10000003, s)
  else if regs .r10 &&& ~~~0xFF000000 ≠ 1 ∨ regs .rdx = 0 ∨
      BitVec.allOnes 64 - guestPageMask < regs .rdx then (.returned 4, s)
  else
    let read : Access (BitVec 64) := do
      validateAccess (regs .rsi).toNat 8 { read := true, write := true }
      readGuestU64 (regs .rsi)
    match caught read s with
    | (none, s) => (.returned 1, s)
    | (some hint, s) =>
      let roundedSize := (regs .rdx + guestPageMask) &&& ~~~guestPageMask
      match findAnywhereRange s.mappings hint roundedSize guestPageMask with
      | none => (.returned 3, s)
      | some mapped =>
        let create : Access Unit := do
          mapAnonymous mapped.toNat roundedSize.toNat { read := true, write := true }
            { read := true, write := true, execute := true } "mach_vm_allocate anonymous anywhere"
            refused
          writeWord (regs .rsi).toNat 8 mapped
        uncaught create s

/-- Trap 12, `mach_vm_deallocate`. -/
def vmDeallocate : TrapResult × AddressSpace :=
  if regs .rdi ≠ taskSelfName.setWidth 64 then (.returned 0x10000003, s)
  else
    match deallocate (regs .rsi).toNat (regs .rdx).toNat s with
    | (.ok .success, s) => (.returned 0, s)
    | (.ok .invalidArgument, s) => (.returned 4, s)
    | (.error _, s) => (.raised, s)

/-- Trap 14, `mach_vm_protect`. -/
def vmProtect : TrapResult × AddressSpace :=
  if regs .rdi ≠ taskSelfName.setWidth 64 then (.returned 0x10000003, s)
  else if regs .r10 ≠ 0 ∨ regs .r8 &&& ~~~0x17 ≠ 0 then (.unsupported, s)
  else
    match protect (regs .rsi).toNat (regs .rdx).toNat (permissionsFromProtection (regs .r8))
        (regs .r8 &&& 0x10 != 0) s with
    | (.ok .success, s) => (.returned 0, s)
    | (.ok .invalidAddress, s) => (.returned 1, s)
    | (.ok .protectionFailure, s) => (.returned 2, s)
    | (.ok .invalidArgument, s) => (.returned 4, s)
    | (.error _, s) => (.raised, s)

/-- Where `mach_vm_map` puts the mapping, or the error it returns. -/
def vmMapAddress (anywhere : Bool) (hint roundedSize alignmentMask : BitVec 64)
    (mappings : List Mapping) : Except (BitVec 64) (BitVec 64) :=
  if anywhere then
    match findAnywhereRange mappings hint roundedSize alignmentMask with
    | none => .error 3
    | some mapped => .ok mapped
  else
    let fixedBase := hint &&& ~~~guestPageMask
    if BitVec.allOnes 64 - roundedSize < fixedBase then .error 4
    else
      let fixedEnd := fixedBase + roundedSize
      if mappings.any fun m =>
          let base := BitVec.ofNat 64 m.base
          fixedBase < base + BitVec.ofNat 64 m.size && base < fixedEnd then .error 3
      else .ok fixedBase

/-- Trap 15, `mach_vm_map`. -/
def vmMap : TrapResult × AddressSpace :=
  if regs .rdi ≠ taskSelfName.setWidth 64 then (.returned 0x10000003, s)
  else
    let placementFlags := regs .r8 &&& ~~~0xFF000000
    let anywhere := placementFlags == 1
    let fixed := placementFlags == 0
    let alignmentMask := if regs .r10 = 0 then guestPageMask else regs .r10
    if (!anywhere && !fixed) ∨ (fixed ∧ regs .r10 ≠ 0) then (.unsupported, s)
    else if anywhere ∧ (alignmentMask < guestPageMask ∨ maximumUserMapEnd ≤ alignmentMask ∨
        alignmentMask &&& guestPageMask ≠ guestPageMask ∨
        alignmentMask &&& (alignmentMask + 1) ≠ 0) then (.returned 4, s)
    else if regs .r9 &&& ~~~0x7 ≠ 0 ∨ regs .rdx = 0 ∨
        BitVec.allOnes 64 - guestPageMask < regs .rdx then (.returned 4, s)
    else
      match caught (readGuestU64 (regs .rsi)) s with
      | (none, s) => (.returned 1, s)
      | (some hint, s) =>
        let roundedSize := (regs .rdx + guestPageMask) &&& ~~~guestPageMask
        match vmMapAddress anywhere hint roundedSize alignmentMask s.mappings with
        | .error code => (.returned code, s)
        | .ok mapped =>
          match mapAnonymous mapped.toNat roundedSize.toNat
              (permissionsFromProtection (regs .r9))
              { read := true, write := true, execute := true }
              (if anywhere then "mach_vm_map anonymous anywhere"
                else "mach_vm_map anonymous fixed") refused s with
          | (.error _, s) => (.raised, s)
          | (.ok (), s) =>
            match caught (writeWord (regs .rsi).toNat 8 mapped) s with
            | (none, s) => (.returned 1, s)
            | (some (), s) => (.returned 0, s)

/-- Trap 89, `mach_timebase_info`. -/
def timebaseInfo : TrapResult × AddressSpace :=
  let fill : Access Unit := do
    validateAccess (regs .rdi).toNat 8 { write := true }
    writeWord (regs .rdi).toNat 4 1
    writeWord (regs .rdi + 4).toNat 4 2
  match caught fill s with
  | (none, s) => (.returned 1, s)
  | (some (), s) => (.returned 0, s)

/-- The traps that change memory and mappings only. -/
def memoryTrap (number : Nat) : TrapResult × AddressSpace :=
  match number with
  | 10 => vmAllocate refused regs s
  | 12 => vmDeallocate regs s
  | 14 => vmProtect regs s
  | 15 => vmMap refused regs s
  | 89 => timebaseInfo regs s
  | _ => (.unsupported, s)

end

/-! ## The requests -/

/-- `decodeGuestInteger`, for a double word and a half word of the message. -/
def doubleWordAt (message : List Byte) (offset : Nat) : BitVec 64 :=
  ofLittleEndian 64 8 (message.drop offset)
def halfWordAt (message : List Byte) (offset : Nat) : BitVec 16 :=
  ofLittleEndian 16 2 (message.drop offset)

section

variable (regs : TrapArguments) (ports : GuestPortSpace)
  (receiveSizeAndPriority timeout : BitVec 64) (message : List Byte)

/-- The checks that the requests of the task have in common. -/
def taskEnvelope (bits : BitVec 32) (size : Nat) (messageId descriptors receiveSize : BitVec 32) :
    Bool :=
  let remoteName := lowHalf (regs .r10)
  let localName := highHalf (regs .r10)
  regs .rsi == 0x200000003 && lowHalf (regs .rdx) == bits &&
    (highHalf (regs .rdx)).toNat == size && localName == highHalf (regs .r9) &&
    lowHalf (regs .r8) == 0 && highHalf (regs .r8) == messageId &&
    lowHalf (regs .r9) == descriptors && lowHalf receiveSizeAndPriority == receiveSize &&
    highHalf receiveSizeAndPriority == 0 && timeout == 0 && message.length == size &&
    remoteName == taskSelfName &&
    ((ports.lookup remoteName).any fun port => port.sendUrefs != 0) &&
    ((ports.lookup localName).any fun port => port.type == .reply && port.hasReceiveRight) &&
    wordAt message 0 == bits && (wordAt message 4).toNat == size &&
    wordAt message 8 == remoteName && wordAt message 12 == localName &&
    wordAt message 16 == 0 && wordAt message 20 == messageId

/-- The bits of a message with a descriptor. -/
def complexBits : BitVec 32 := 0x80000000 ||| observedBits

/-- `decodeObservedTaskSetSpecialPortRequest`. -/
def decodeTaskSetSpecialPort : Bool :=
  taskEnvelope regs ports receiveSizeAndPriority timeout message complexBits 52 3410 1 44 &&
    wordAt message 24 == 1 &&
    ((ports.lookup (wordAt message 28)).any fun port => port.sendUrefs != 0) &&
    message.getD 38 0 == 19 && message.getD 39 0 == 0 &&
    (message.drop 40).take 8 == nativeNdr && wordAt message 48 == 10

/-- `GuestRestartableRange`. -/
structure RestartableRange where
  location : BitVec 64
  length : BitVec 16
  recoveryOffset : BitVec 16
  flags : BitVec 32

/-- The checks of the sorted ranges. -/
def rangesAccepted : List RestartableRange → Bool
  | [] => true
  | range :: rest =>
    range.length ≤ 4096 && range.recoveryOffset ≤ 4096 && range.flags == 0 &&
      range.location ≤ BitVec.allOnes 64 - range.length.setWidth 64 &&
      range.location ≤ BitVec.allOnes 64 - range.recoveryOffset.setWidth 64 &&
      (rest.head?.all fun next => range.location + range.length.setWidth 64 ≤ next.location) &&
      rangesAccepted rest

/-- `decodeObservedRestartableRangesRegisterRequest`. -/
def decodeRestartableRangesRegister : Bool :=
  let count := (wordAt message 32).toNat
  36 ≤ message.length &&
    taskEnvelope regs ports receiveSizeAndPriority timeout message observedBits message.length
      8000 0 44 &&
    (message.drop 24).take 8 == nativeNdr && count != 0 && count ≤ 64 &&
    message.length == 36 + count * 16 &&
    rangesAccepted (((List.range count).map fun i =>
      { location := doubleWordAt message (36 + i * 16)
        length := halfWordAt message (36 + i * 16 + 8)
        recoveryOffset := halfWordAt message (36 + i * 16 + 10)
        flags := wordAt message (36 + i * 16 + 12) }).mergeSort fun a b =>
          a.location ≤ b.location)

/-- `decodeObservedMachVmMapRequest`, and the checks of its fields. -/
def decodeMachVmMap : Bool :=
  let address := doubleWordAt message 48
  let size := doubleWordAt message 56
  taskEnvelope regs ports receiveSizeAndPriority timeout message complexBits 100 4811 1 52 &&
    wordAt message 24 == 1 && wordAt message 28 == 0 && message.getD 38 0 == 19 &&
    message.getD 39 0 == 0 && (message.drop 40).take 8 == nativeNdr &&
    size != 0 && address % 4096 == 0 && size % 4096 == 0 && address ≤ BitVec.allOnes 64 - size &&
    doubleWordAt message 64 == guestPageMask && wordAt message 72 == 0 &&
    doubleWordAt message 76 == 0 && wordAt message 84 == 0 && wordAt message 88 == 0 &&
    wordAt message 92 == 0 && wordAt message 96 == 1

end

/-- The replies, as they are encoded. -/
structure MachReplies where
  request : MachRequest → TrapArguments → Option PortName → List Byte
  taskSetSpecialPort : TrapArguments → List Byte
  restartableRangesRegister : TrapArguments → List Byte
  machVmMap : TrapArguments → (result : BitVec 32) → (address : BitVec 64) → List Byte

section

variable (refused : Option String) (replies : MachReplies) (regs : TrapArguments)

/-- `inspectUnsupportedMachMessage2`, for what it reads. -/
def inspectUnsupportedMachMessage2 (s : AddressSpace) : AddressSpace :=
  let sendSize := (highHalf (regs .rdx)).toNat
  if 2 ^ 64 - 1 - 16 < (regs .rsp).toNat then s
  else
    let arguments : Access Unit := do
      let _ ← readGuestU64 (regs .rsp + 8)
      let _ ← readGuestU64 (regs .rsp + 16)
    let s := (caught arguments s).2
    if sendSize < 24 ∨ 64 * 1024 < sendSize then s
    else (caught (readInto (regs .rdi).toNat sendSize) s).2

/-- A request that is answered without changing a mapping. -/
def replyTo (reply : List Byte) (s : AddressSpace) : TrapResult × AddressSpace :=
  match caught (validateAccess (regs .rdi).toNat 44 { write := true }) s with
  | (none, s) => (.unsupported, inspectUnsupportedMachMessage2 regs s)
  | (some (), s) => uncaught (writeBytes (regs .rdi).toNat reply) s

/-- The request of `mach_vm_map`. -/
def machVmMap (message : List Byte) (s : AddressSpace) : TrapResult × AddressSpace :=
  match caught (validateAccess (regs .rdi).toNat 52 { write := true }) s with
  | (none, s) => (.unsupported, inspectUnsupportedMachMessage2 regs s)
  | (some (), s) =>
    let address := doubleWordAt message 48
    let size := doubleWordAt message 56
    let (mapped, s) := caught (mapAnonymous address.toNat size.toNat .none .none
      "mach_vm_map fixed no-access reservation" refused) s
    let reply := replies.machVmMap regs (if mapped.isSome then 0 else 3) address
    match caught (writeBytes (regs .rdi).toNat reply) s with
    | (some (), s) => (.returned 0, s)
    | (none, s) =>
      (.raised, if mapped.isSome then (deallocate address.toNat size.toNat s).2 else s)

/-- The requests that change memory and mappings only. -/
def memoryRequest (ports : GuestPortSpace) (receiveSizeAndPriority timeout : BitVec 64)
    (message : List Byte) (s : AddressSpace) : TrapResult × AddressSpace :=
  if decodeTaskSetSpecialPort regs ports receiveSizeAndPriority timeout message then
    replyTo regs (replies.taskSetSpecialPort regs) s
  else if decodeRestartableRangesRegister regs ports receiveSizeAndPriority timeout message then
    replyTo regs (replies.restartableRangesRegister regs) s
  else if decodeMachVmMap regs ports receiveSizeAndPriority timeout message then
    machVmMap refused replies regs message s
  else (.unsupported, inspectUnsupportedMachMessage2 regs s)

end

/-- `dispatch` on an address space. -/
def guestServices (refused : Option String) (replies : MachReplies) :
    MachServices AddressSpace where
  validateWrite address size s :=
    let (result, s) := caught (validateAccess address.toNat size { write := true }) s
    (result.isSome, s)
  readBytes address size := caught (readInto address.toNat size)
  readU64 address := caught (readGuestU64 address)
  writeBytes address data s :=
    let (result, s) := caught (writeBytes address.toNat data) s
    (result.isSome, s)
  memoryTrap number regs s := memoryTrap refused regs s number
  memoryRequest regs := memoryRequest refused replies regs
  inspect := inspectUnsupportedMachMessage2
  encodeReply := replies.request

/-! ## What a failed trap keeps -/

/-- The trap failed : it was not supported, or returned an error. The traps that return a name
return null, or `KERN_NO_SPACE` for a timer. -/
def failed (number : Nat) : TrapResult → Bool
  | .unsupported => true
  | .raised => false
  | .returned rax =>
    if [26, 27, 28, 29, 50].contains number then rax == 0
    else if number = 91 then rax == 3
    else rax != 0

/-- The buffers that a trap reads and writes before it can still fail. -/
def buffers (regs : TrapArguments) : List (Nat × Nat) :=
  match trapNumber (regs .rax) with
  | 10 | 15 => [((regs .rsi).toNat, 8)]
  | 16 => [((regs .rdx).toNat, 4)]
  | 24 => [((regs .rsi).toNat, 24), ((regs .r10).toNat, 4)]
  | 47 => [((regs .rsp + 8).toNat, 8), ((regs .rsp + 16).toNat, 8),
      ((regs .rdi).toNat, (highHalf (regs .rdx)).toNat)]
  | 70 => [((regs .rsi).toNat, (regs .rdx).toNat), ((regs .r10).toNat, 8)]
  | 89 => [((regs .rdi).toNat, 8)]
  | _ => []

/-- Memory after `mach_vm_map` made its mapping and could not write its address. -/
def KeepsMapping (s s' : AddressSpace) : Prop :=
  ∃ s1 s2 m, SameMemory s s1 ∧ Added s1 m s2 ∧ SameMemory s2 s'

/-! ### Failed accesses -/

section

variable {α : Type} {s s' s'' : AddressSpace}

theorem caught_calm {x : Access α} (h : Calm s (x s).2) : Calm s (caught x s).2 := by
  unfold caught
  split
  · next hx =>
    rw [hx] at h
    exact h
  · next hx =>
    rw [hx] at h
    exact h

/-- The space after an access that was caught. -/
theorem calm_of_caught {x : Access α} {result : Option α} (h : Calm s (x s).2)
    (hx : caught x s = (result, s')) : Calm s s' := by
  have := caught_calm h
  rwa [hx] at this

theorem of_caught_none {x : Access α} {Q : α → AddressSpace → Prop}
    {F : AccessError → AddressSpace → Prop} (h : Post x s Q F)
    (hx : caught x s = (none, s')) : ∃ e, F e s' := by
  unfold caught at hx
  split at hx
  · cases hx
  · next e s1 hx' =>
    obtain rfl : s1 = s' := congrArg Prod.snd hx
    exact ⟨e, Post.of_error h hx'⟩

theorem readGuestU64_calm (hr : Regular s) {address : GuestAddress}
    (hno : NoneFails s address.toNat 8) : Calm s (readGuestU64 address s).2 := by
  have hcalm := readWord_calm hr hno
  have hpost : Post (readGuestU64 address) s (fun _ s' => Calm s s') fun _ s' => Calm s s' := by
    refine Post.bind (Post.mono (Post.of_final hcalm) ?_ fun _ _ h => h)
    intro _ _ h
    exact Post.pure h
  exact Post.final hpost

theorem caught_writeBytes_none (hr : Regular s) {address : Nat} {data : List Byte}
    (hno : NoneFails s address data.length)
    (hx : caught (writeBytes address data) s = (none, s')) : SameMemory s s' := by
  unfold caught at hx
  split at hx
  · cases hx
  · next e s1 hx' =>
    obtain rfl : s1 = s' := congrArg Prod.snd hx
    exact writeBytes_error hr hno hx'

theorem length_wordBytes (size : Nat) (value : BitVec 64) :
    (wordBytes size value).length = size := length_littleEndian value

/-! ### Mappings -/

theorem sameBytes_of_added {m a : Mapping} (h : Added s m s') (hi : Inv s) (ha : a ∈ s.mappings) :
    SameBytes s s' a := by
  rcases h.space with ⟨-, -, rfl⟩ | ⟨-, -, file, -, rfl⟩
  · exact .of_eq (fun _ _ => rfl) fun _ _ => rfl
  · refine .of_eq (fun f hf => ?_) fun _ _ => rfl
    have hlt := ((hi.shaped a ha).file f hf).1
    have hne : f ≠ s.fileCount := Nat.ne_of_lt hlt
    simp [inserted, allocated, invalidateMappingLookup, bumped, hne]

/-- A new mapping keeps the space regular, and no page throws that did not throw before. -/
theorem mapAnonymous_regular (hr : Regular s) {base size : Nat} (hsize : size < 2 ^ 64)
    {permissions maximumPermissions : Permission} {label : String} {refused : Option String}
    (h : mapAnonymous base size permissions maximumPermissions label refused s = (.ok (), s')) :
    Regular s' ∧ (∃ m, Added s m s') ∧ ∀ a n, NoneFails s a n → NoneFails s' a n := by
  obtain ⟨m, hadded⟩ := Post.of_ok
    (mapAnonymous_spec hr.inv hsize permissions maximumPermissions label refused) h
  refine ⟨⟨hadded.inv hr.inv, hadded.backed hr.backed,
    hadded.settled.lazyInv hr.inv.settled hr.lazyInv⟩, ⟨m, hadded⟩,
    fun a n hno b hb o ho h1 h2 => ?_⟩
  rcases hadded.mem.mp hb with rfl | hb
  · simp [pageFails, hadded.notLazy]
  · rw [(sameBytes_of_added hadded hr.inv hb o ho).1]
    exact hno b hb o ho h1 h2

theorem deallocate_invalidArgument {address size : Nat}
    (h : deallocate address size s = (.ok .invalidArgument, s')) : s' = s := by
  have hpost : Post (deallocate address size) s
      (fun result s' => result = .invalidArgument → s' = s) fun _ _ => True := by
    unfold deallocate
    split
    · exact Post.pure fun _ => rfl
    · split
      · exact Post.pure fun _ => rfl
      · exact nofun
  exact Post.of_ok hpost h rfl

theorem protect_failure {address size : Nat} {permissions : Permission} {makePrivateCopy : Bool}
    {result : ProtectResult}
    (h : protect address size permissions makePrivateCopy s = (.ok result, s'))
    (hresult : result ≠ .success) : s' = s := by
  have hpost : Post (protect address size permissions makePrivateCopy) s
      (fun result s' => result ≠ .success → s' = s) fun _ _ => True := by
    unfold protect
    split
    · exact Post.pure fun _ => rfl
    · split
      · exact Post.pure fun _ => rfl
      · refine Post.bind (Post.get ?_)
        split
        · exact Post.pure fun _ => rfl
        · exact fun h => absurd rfl h
  exact Post.of_ok hpost h hresult

end

/-! ### The traps on memory -/

section

variable {refused : Option String} {regs : TrapArguments} {s : AddressSpace}

theorem vmAllocate_failed (hr : Regular s) (hno : NoneFails s (regs .rsi).toNat 8)
    (hfail : failed 10 (vmAllocate refused regs s).1 = true) :
    SameMemory s (vmAllocate refused regs s).2 := by
  revert hfail
  unfold vmAllocate
  split
  · exact fun _ => .refl s
  · split
    · exact fun _ => .refl s
    · have hread : Calm s ((do
          validateAccess (regs .rsi).toNat 8 { read := true, write := true }
          readGuestU64 (regs .rsi) : Access (BitVec 64)) s).2 := by
        refine Post.final (P := fun s' => Calm s s') ?_
        refine Post.bind (Post.mono (Post.of_final (validateAccess_calm hr.inv _ _ _)) ?_
          fun _ _ h => h)
        intro _ s1 h1
        refine Post.of_final (h1.trans (readGuestU64_calm (h1.regular hr) (h1.noneFails hr hno)))
      dsimp only
      split
      · next hx => exact fun _ => (calm_of_caught hread hx).sameMemory hr
      · next hx =>
        have hcalm := calm_of_caught hread hx
        split
        · exact fun _ => hcalm.sameMemory hr
        · unfold uncaught
          split
          · exact nofun
          · exact nofun

theorem vmDeallocate_failed (hfail : failed 12 (vmDeallocate regs s).1 = true) :
    SameMemory s (vmDeallocate regs s).2 := by
  revert hfail
  unfold vmDeallocate
  split
  · exact fun _ => .refl s
  · split
    · exact nofun
    · next h =>
      obtain rfl := deallocate_invalidArgument h
      exact fun _ => .refl _
    · exact nofun

theorem vmProtect_failed (hfail : failed 14 (vmProtect regs s).1 = true) :
    SameMemory s (vmProtect regs s).2 := by
  revert hfail
  unfold vmProtect
  split
  · exact fun _ => .refl s
  · split
    · exact fun _ => .refl s
    · split
      · exact nofun
      · next h =>
        obtain rfl := protect_failure h nofun
        exact fun _ => .refl _
      · next h =>
        obtain rfl := protect_failure h nofun
        exact fun _ => .refl _
      · next h =>
        obtain rfl := protect_failure h nofun
        exact fun _ => .refl _
      · exact nofun

theorem vmMap_failed (hr : Regular s) (hno : NoneFails s (regs .rsi).toNat 8)
    (hfail : failed 15 (vmMap refused regs s).1 = true) :
    SameMemory s (vmMap refused regs s).2 ∨ KeepsMapping s (vmMap refused regs s).2 := by
  revert hfail
  unfold vmMap
  split
  · exact fun _ => .inl (.refl s)
  · dsimp only
    generalize (if regs .r10 = 0 then guestPageMask else regs .r10) = alignmentMask
    split
    · exact fun _ => .inl (.refl s)
    · split
      · exact fun _ => .inl (.refl s)
      · split
        · exact fun _ => .inl (.refl s)
        · split
          · next hx =>
            exact fun _ => .inl ((calm_of_caught (readGuestU64_calm hr hno) hx).sameMemory hr)
          · next hint s1 hx =>
            have hcalm := calm_of_caught (readGuestU64_calm hr hno) hx
            have hr1 := hcalm.regular hr
            split
            · exact fun _ => .inl (hcalm.sameMemory hr)
            · split
              · exact nofun
              · next s2 hmap =>
                obtain ⟨hr2, ⟨m, hadded⟩, hkeep⟩ := mapAnonymous_regular hr1 (BitVec.isLt _) hmap
                have hno2 := hkeep _ _ (hcalm.noneFails hr hno)
                split
                · next s3 hwrite =>
                  refine fun _ => .inr ⟨s1, s2, m, hcalm.sameMemory hr, hadded, ?_⟩
                  exact caught_writeBytes_none hr2 (by rw [length_wordBytes]; exact hno2) hwrite
                · exact nofun

/-- The two words of `mach_timebase_info` are both written if no page throws. -/
theorem timebaseInfo_failed (hr : Regular s) (hno : NoneFails s (regs .rdi).toNat 8)
    (hfail : failed 89 (timebaseInfo regs s).1 = true) :
    SameMemory s (timebaseInfo regs s).2 := by
  have hfill : Post (do
      validateAccess (regs .rdi).toNat 8 { write := true }
      writeWord (regs .rdi).toNat 4 1
      writeWord (regs .rdi + 4).toNat 4 2 : Access Unit) s (fun _ _ => True)
      fun _ s' => SameMemory s s' := by
    refine Post.bind (Post.mono (Post.and (Post.of_final (validateAccess_calm hr.inv _ _ _))
      (validateFrom_found { write := true } 8 (regs .rdi).toNat 8 hr.inv le_rfl)) ?_ ?_)
    · rintro _ s1 ⟨hcalm, hfound⟩
      have hr1 := hcalm.regular hr
      have hno1 := hcalm.noneFails hr hno
      have hfound1 (k : Nat) (hk : k < 8) :
          ∃ i m, Found s1 ((regs .rdi).toNat + k) 1 { write := true } i m := by
        obtain ⟨i, m, hf⟩ := hfound k hk
        exact ⟨i, m, hf.of_mappings hcalm.touches.mappings_eq⟩
      have hnext : (regs .rdi + 4).toNat = (regs .rdi).toNat + 4 := by
        obtain ⟨i, m, hf⟩ := hfound 7 (by decide)
        have hlimit := hf.limit
        have hbelow := (hr.inv.placed m hf.mem).below
        rw [BitVec.toNat_add, Nat.mod_eq_of_lt]
        · rfl
        · have : (4 : BitVec 64).toNat = 4 := rfl
          omega
      have hfirst : NoneFails s1 (regs .rdi).toNat (wordBytes 4 1).length := by
        rw [length_wordBytes]
        exact fun m hm o ho h1 h2 => hno1 m hm o ho h1 (by omega)
      have hsecond : NoneFails s1 ((regs .rdi).toNat + 4) (wordBytes 4 2).length := by
        rw [length_wordBytes]
        exact hno1.drop 4 (by decide)
      refine Post.bind (Post.mono (Post.with_run (writeBytes_returns hr1 hfirst fun k hk => ?_)) ?_
        fun _ _ h => h.elim)
      · rw [length_wordBytes] at hk
        exact hfound1 k (by omega)
      · rintro _ s2 ⟨-, hrun⟩
        obtain ⟨hr2, hkeep, hkeep'⟩ := writeBytes_ok hr1 hfirst hrun
        rw [hnext]
        refine Post.mono (writeBytes_returns hr2 (hkeep _ _ hsecond) fun k hk => ?_)
          (fun _ _ _ => trivial) fun _ _ h => h.elim
        rw [length_wordBytes] at hk
        refine hkeep' _ _ ?_
        rw [Nat.add_assoc]
        exact hfound1 (4 + k) (by omega)
    · rintro _ s1 ⟨hcalm, -⟩
      exact hcalm.sameMemory hr
  revert hfail
  unfold timebaseInfo
  dsimp only
  split
  · next hx =>
    obtain ⟨-, hsame⟩ := of_caught_none hfill hx
    exact fun _ => hsame
  · exact nofun

theorem memoryTrap_failed (hr : Regular s) {number : Nat} (hnumber : trapNumber (regs .rax) = number)
    (hno : ∀ b ∈ buffers regs, NoneFails s b.1 b.2)
    (hfail : failed number (memoryTrap refused regs s number).1 = true) :
    SameMemory s (memoryTrap refused regs s number).2 ∨
      (number = 15 ∧ KeepsMapping s (memoryTrap refused regs s number).2) := by
  revert hfail
  unfold memoryTrap
  split
  · have hbuffer := hno ((regs .rsi).toNat, 8) (by simp [buffers, hnumber])
    exact fun hfail => .inl (vmAllocate_failed hr hbuffer hfail)
  · exact fun hfail => .inl (vmDeallocate_failed hfail)
  · exact fun hfail => .inl (vmProtect_failed hfail)
  · have hbuffer := hno ((regs .rsi).toNat, 8) (by simp [buffers, hnumber])
    intro hfail
    rcases vmMap_failed hr hbuffer hfail with h | h
    · exact .inl h
    · exact .inr ⟨rfl, h⟩
  · have hbuffer := hno ((regs .rdi).toNat, 8) (by simp [buffers, hnumber])
    exact fun hfail => .inl (timebaseInfo_failed hr hbuffer hfail)
  · exact fun _ => .inl (.refl s)

/-! ### The requests on memory -/

theorem inspect_sameMemory (hr : Regular s) (h1 : NoneFails s (regs .rsp + 8).toNat 8)
    (h2 : NoneFails s (regs .rsp + 16).toNat 8)
    (h3 : NoneFails s (regs .rdi).toNat (highHalf (regs .rdx)).toNat) :
    SameMemory s (inspectUnsupportedMachMessage2 regs s) := by
  unfold inspectUnsupportedMachMessage2
  dsimp only
  split
  · exact .refl s
  · have hread : Calm s ((do
        let _ ← readGuestU64 (regs .rsp + 8)
        let _ ← readGuestU64 (regs .rsp + 16) : Access Unit) s).2 := by
      refine Post.final (P := fun s' => Calm s s') ?_
      refine Post.bind (Post.mono (Post.of_final (readGuestU64_calm hr h1)) ?_ fun _ _ h => h)
      intro _ s1 hcalm
      refine Post.bind (Post.mono (Post.of_final (readGuestU64_calm (hcalm.regular hr)
        (hcalm.noneFails hr h2))) ?_ fun _ _ h => hcalm.trans h)
      intro _ s2 hcalm2
      exact Post.pure (hcalm.trans hcalm2)
    have hcalm := caught_calm hread
    split
    · exact hcalm.sameMemory hr
    · exact (hcalm.trans (caught_calm (readInto_calm (hcalm.regular hr)
        (hcalm.noneFails hr h3)))).sameMemory hr

end

end Rosa.Darwin
