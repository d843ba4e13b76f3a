import Rosa.Darwin.MachMemory

/-!
# Failed traps

A Mach trap that returns an error or is not supported leaves the ports, the vouchers and the
memory as they were, as long as its buffers touch no page whose callback throws. The names of
the ports are given out in order and the rollback takes back the last one, so a right whose name
could not be written leaves no trace; `mach_vm_map` keeps its mapping.
-/

namespace Rosa.Darwin

open Rosa.Computation Rosa.AddressSpace GuestPortSpace

/-- The names and the vouchers that were given out are not given out again. -/
structure MachDispatcher.Fresh (d : MachDispatcher) : Prop where
  numbered : Numbered d.portSpace
  voucher : d.nextVoucher ∉ d.vouchers

section

variable {A : Type} (services : MachServices A) {regs : TrapArguments} {d d' : MachDispatcher}
  {memory : A}

/-- What a trap does to the vouchers : nothing, or it gives out the next one. -/
inductive VoucherStep (d d' : MachDispatcher) : Prop
  | kept (hvouchers : d'.vouchers = d.vouchers) (hnext : d'.nextVoucher = d.nextVoucher)
  | minted (hvouchers : ∀ v ∈ d'.vouchers, v = d.nextVoucher ∨ v ∈ d.vouchers)
      (hnext : d'.nextVoucher = d.nextVoucher + 1)

theorem voucherStep_onTaskSelf {act : TrapResult × MachDispatcher × A}
    (hact : VoucherStep d act.2.1) : VoucherStep d (onTaskSelf regs d memory act).2.1 := by
  unfold onTaskSelf
  split
  · exact hact
  · exact .kept rfl rfl

theorem voucherStep_allocateAndCopyOut (port : GuestPort) (output : GuestAddress) :
    VoucherStep d (allocateAndCopyOut services d port output memory).2.1 := by
  unfold allocateAndCopyOut
  split
  · exact .kept rfl rfl
  · split
    · exact .kept rfl rfl
    · exact .kept rfl rfl

theorem voucherStep_createVoucher :
    VoucherStep d (createVoucher services regs d memory).2.1 := by
  unfold createVoucher
  split
  · exact .kept rfl rfl
  · split
    · exact .kept rfl rfl
    · split
      · exact .kept rfl rfl
      · have hinsert : ∀ v ∈ d.vouchers.insert d.nextVoucher,
            v = d.nextVoucher ∨ v ∈ d.vouchers := fun v hv => List.mem_insert_iff.mp hv
        dsimp only
        split
        · exact .minted hinsert rfl
        · exact .minted (fun v hv => hinsert v (List.mem_of_mem_erase hv)) rfl

theorem voucherStep_portConstruct :
    VoucherStep d (portConstruct services regs d memory).2.1 := by
  refine voucherStep_onTaskSelf ?_
  split
  · exact .kept rfl rfl
  · dsimp only
    split
    · exact .kept rfl rfl
    · split
      · exact .kept rfl rfl
      · exact voucherStep_allocateAndCopyOut services _ _

theorem voucherStep_answer (request : MachRequest) :
    VoucherStep d (answer services regs d memory request).2.1 := by
  unfold answer
  split
  · exact .kept rfl rfl
  · dsimp only
    repeat' split
    all_goals exact .kept rfl rfl

theorem voucherStep_machMessage2 :
    VoucherStep d (machMessage2 services regs d memory).2.1 := by
  unfold machMessage2
  repeat' split
  all_goals first | exact .kept rfl rfl | exact voucherStep_answer services _

/-- A trap is a step of the vouchers. -/
theorem voucherStep_dispatch : VoucherStep d (dispatch services regs d memory).2.1 := by
  unfold dispatch
  split
  · exact .kept rfl rfl
  · split
    · refine voucherStep_onTaskSelf ?_
      dsimp only
      split
      · exact voucherStep_allocateAndCopyOut services _ _
      · exact .kept rfl rfl
    · exact voucherStep_onTaskSelf (.kept rfl rfl)
    · refine voucherStep_onTaskSelf ?_
      dsimp only
      repeat' split
      all_goals exact .kept rfl rfl
    · refine voucherStep_onTaskSelf ?_
      dsimp only
      repeat' split
      all_goals exact .kept rfl rfl
    · exact voucherStep_portConstruct services
    · exact .kept rfl rfl
    · exact .kept rfl rfl
    · unfold taskSelf
      repeat' split
      all_goals exact .kept rfl rfl
    · exact .kept rfl rfl
    · exact voucherStep_machMessage2 services
    · unfold specialReplyPort
      repeat' split
      all_goals exact .kept rfl rfl
    · exact voucherStep_createVoucher services
    · exact .kept rfl rfl
    · split
      · exact .kept rfl rfl
      · exact .kept rfl rfl

/-- The vouchers are below the next one. -/
def MachDispatcher.VouchersBelow (d : MachDispatcher) : Prop :=
  ∀ v ∈ d.vouchers, v.toNat < d.nextVoucher.toNat

theorem VoucherStep.below (h : VoucherStep d d') (hbelow : d.VouchersBelow)
    (hroom : d.nextVoucher.toNat + 1 < 2 ^ 64) :
    d'.VouchersBelow ∧ d'.nextVoucher.toNat ≤ d.nextVoucher.toNat + 1 := by
  cases h with
  | kept hvouchers hnext =>
    rw [MachDispatcher.VouchersBelow, hvouchers, hnext]
    exact ⟨hbelow, Nat.le_succ _⟩
  | minted hvouchers hnext =>
    have hadd : d'.nextVoucher.toNat = d.nextVoucher.toNat + 1 := by
      rw [hnext, BitVec.toNat_add_of_lt hroom]
      rfl
    refine ⟨fun v hv => ?_, hadd.le⟩
    rcases hvouchers v hv with rfl | hv
    · omega
    · have := hbelow v hv
      omega

/-- Every dispatcher that a run leads to is fresh, until the vouchers run out. -/
theorem fresh_dispatchAll (traps : List (TrapArguments × A)) (hn : Numbered d.portSpace)
    (hbelow : d.VouchersBelow) (hroom : d.nextVoucher.toNat + traps.length < 2 ^ 64) :
    (dispatchAll services traps d).Fresh := by
  induction traps generalizing d with
  | nil => exact ⟨hn, fun hv => (hbelow _ hv).false⟩
  | cons trap rest ih =>
    obtain ⟨regs, memory⟩ := trap
    rw [List.length_cons] at hroom
    have hstep : VoucherStep d (dispatch services regs d memory).2.1 :=
      voucherStep_dispatch services
    obtain ⟨hbelow', hnext⟩ := hstep.below hbelow (by omega)
    exact ih (hn.step (portStep_dispatch services hn)) hbelow' (by omega)

theorem fresh_run (traps : List (TrapArguments × A)) (h : traps.length < 2 ^ 64 - 1) :
    (dispatchAll services traps .initial).Fresh := by
  refine fresh_dispatchAll services traps inv_initial.numbered nofun ?_
  have : MachDispatcher.initial.nextVoucher.toNat = 1 := rfl
  omega

end

/-- Ports, vouchers and memory after a trap are as they were. -/
structure Unchanged (d : MachDispatcher) (s : AddressSpace)
    (outcome : TrapResult × MachDispatcher × AddressSpace) : Prop where
  ports : outcome.2.1.portSpace = d.portSpace
  vouchers : outcome.2.1.vouchers = d.vouchers
  memory : SameMemory s outcome.2.2

/-- Only a mapping of `mach_vm_map` was added. -/
structure OnlyMapped (d : MachDispatcher) (s : AddressSpace)
    (outcome : TrapResult × MachDispatcher × AddressSpace) : Prop where
  ports : outcome.2.1.portSpace = d.portSpace
  vouchers : outcome.2.1.vouchers = d.vouchers
  memory : KeepsMapping s outcome.2.2

section

variable {refused : Option String} {replies : MachReplies} {regs : TrapArguments}
  {d : MachDispatcher} {s s' : AddressSpace}

theorem Unchanged.rfl {result : TrapResult} : Unchanged d s (result, d, s) :=
  ⟨Eq.refl _, Eq.refl _, .refl s⟩

theorem Unchanged.of_memory {result : TrapResult} (h : SameMemory s s') :
    Unchanged d s (result, d, s') := ⟨Eq.refl _, Eq.refl _, h⟩

/-! ## Accesses of the services -/

theorem validateWrite_calm (hi : Inv s) {address : GuestAddress} {size : Nat} {ok : Bool}
    (h : (guestServices refused replies).validateWrite address size s = (ok, s')) : Calm s s' := by
  have hcalm := caught_calm (validateAccess_calm hi address.toNat size { write := true })
  have hs : (caught (validateAccess address.toNat size { write := true }) s).2 = s' :=
    congrArg Prod.snd h
  rwa [hs] at hcalm

theorem writeBytes_false (hr : Regular s) {address : GuestAddress} {data : List Byte}
    (hno : NoneFails s address.toNat data.length)
    (h : (guestServices refused replies).writeBytes address data s = (false, s')) :
    SameMemory s s' := by
  have hs : (caught (writeBytes address.toNat data) s).2 = s' := congrArg Prod.snd h
  have hnone : (caught (writeBytes address.toNat data) s).1.isSome = false :=
    congrArg Prod.fst h
  refine caught_writeBytes_none hr hno (Prod.ext ?_ hs)
  simpa using hnone

/-! ## Traps on ports -/

theorem onTaskSelf_unchanged {number : Nat} {act : TrapResult × MachDispatcher × AddressSpace}
    (hact : failed number act.1 = true → Unchanged d s act)
    (hfail : failed number (onTaskSelf regs d s act).1 = true) :
    Unchanged d s (onTaskSelf regs d s act) := by
  revert hfail
  unfold onTaskSelf
  split
  · exact hact
  · exact fun _ => .rfl

/-- A right whose name cannot be written is taken back. -/
theorem allocateAndCopyOut_unchanged (hd : d.Fresh) (hr : Regular s) {port : GuestPort}
    (htype : port.type ∉ [.host, .thread, .bootstrap, .clock]) {output : GuestAddress}
    (hno : NoneFails s output.toNat 4) {number : Nat}
    (hnumber : number ∉ [26, 27, 28, 29, 50, 91])
    (hfail : failed number
      (allocateAndCopyOut (guestServices refused replies) d port output s).1 = true) :
    Unchanged d s (allocateAndCopyOut (guestServices refused replies) d port output s) := by
  revert hfail
  unfold allocateAndCopyOut GuestPortSpace.allocateReceiveRight
  rcases hd.numbered.allocatePort_eq { port with hasReceiveRight := true } with
    ⟨-, heq⟩ | ⟨hle, heq⟩
  · rw [heq]
    exact fun _ => ⟨rfl, rfl, .refl s⟩
  · rw [heq]
    dsimp only
    split
    · intro hfail
      simp_all [failed]
    · next hwrite =>
      refine fun _ => ⟨?_, rfl, ?_⟩
      · refine hd.numbered.rollback_added hle ?_
        rintro hclock
        exact htype (by simp_all)
      · exact writeBytes_false hr (by simpa using hno) hwrite

theorem portAllocate_unchanged (hd : d.Fresh) (hr : Regular s)
    (hno : NoneFails s (regs .rdx).toNat 4)
    (hfail : failed 16 (portAllocate (guestServices refused replies) regs d s).1 = true) :
    Unchanged d s (portAllocate (guestServices refused replies) regs d s) := by
  refine onTaskSelf_unchanged ?_ hfail
  dsimp only
  split
  · obtain ⟨-, htype⟩ := allocatedPort_bounded (lowHalf (regs .rsi))
    exact allocateAndCopyOut_unchanged hd hr htype hno (by decide)
  · exact fun _ => .rfl

theorem portDeallocate_unchanged (hfail : failed 18 (portDeallocate regs d s).1 = true) :
    Unchanged d s (portDeallocate regs d s) := by
  refine onTaskSelf_unchanged (fun hfail => ?_) hfail
  refine ⟨deallocateUref_refused fun hsuccess => ?_, rfl, .refl s⟩
  simp [hsuccess, failed] at hfail

theorem portModRefs_unchanged (hfail : failed 19 (portModRefs regs d s).1 = true) :
    Unchanged d s (portModRefs regs d s) := by
  refine onTaskSelf_unchanged ?_ hfail
  dsimp only
  split
  · exact fun _ => .rfl
  · split
    · exact fun _ => .rfl
    · split
      · exact fun _ => .rfl
      · split
        · exact fun _ => .rfl
        · split
          · exact fun _ => .rfl
          · split
            · exact fun _ => .rfl
            · exact nofun

theorem portInsertMember_unchanged (hfail : failed 22 (portInsertMember regs d s).1 = true) :
    Unchanged d s (portInsertMember regs d s) := by
  refine onTaskSelf_unchanged ?_ hfail
  dsimp only
  split
  · split
    · exact fun _ => .rfl
    · split
      · exact nofun
      · exact nofun
  · exact fun _ => .rfl

theorem portConstruct_unchanged (hd : d.Fresh) (hr : Regular s)
    (hoptions : NoneFails s (regs .rsi).toNat 24) (houtput : NoneFails s (regs .r10).toNat 4)
    (hfail : failed 24 (portConstruct (guestServices refused replies) regs d s).1 = true) :
    Unchanged d s (portConstruct (guestServices refused replies) regs d s) := by
  refine onTaskSelf_unchanged ?_ hfail
  split
  · next hread =>
    have hcalm := calm_of_caught (readInto_calm hr hoptions) hread
    exact fun _ => .of_memory (hcalm.sameMemory hr)
  · next options s1 hread =>
    have hcalm := calm_of_caught (readInto_calm hr hoptions) hread
    dsimp only
    split
    · exact fun _ => .of_memory (hcalm.sameMemory hr)
    · have hr1 := hcalm.regular hr
      split
      · next hvalid =>
        have hcalm2 := hcalm.trans (validateWrite_calm hr1.inv hvalid)
        exact fun _ => .of_memory (hcalm2.sameMemory hr)
      · next s2 hvalid =>
        have hcalm2 := hcalm.trans (validateWrite_calm hr1.inv hvalid)
        obtain ⟨-, htype⟩ := constructedPort_bounded (wordAt options 0) (wordAt options 4)
          (regs .rdx)
        intro hfail
        obtain ⟨hports, hvouchers, hmemory⟩ := allocateAndCopyOut_unchanged hd
          (hcalm2.regular hr) htype (hcalm2.noneFails hr houtput) (by decide) hfail
        exact ⟨hports, hvouchers, (hcalm2.sameMemory hr).trans hmemory⟩

/-- A null name was not given out. -/
theorem elim_eq_zero {name : Option PortName} (hne : ∀ n, name = some n → n ≠ 0)
    (h : name.elim 0 (·.setWidth 64) = (0 : BitVec 64)) : name = none := by
  cases name with
  | none => rfl
  | some n =>
    refine absurd ?_ (hne n rfl)
    have : (n.setWidth 64).setWidth 32 = (0 : BitVec 32) := by
      rw [show n.setWidth 64 = (0 : BitVec 64) from h]
      rfl
    simpa using this

theorem allocateReceiveRight_refused (h : Numbered d.portSpace) {port : GuestPort}
    (hnone : (d.portSpace.allocateReceiveRight port).1 = none) :
    (d.portSpace.allocateReceiveRight port).2 = d.portSpace := by
  unfold GuestPortSpace.allocateReceiveRight at hnone ⊢
  rw [h.allocatePort_refused hnone]

theorem allocateReceiveRight_name (h : Numbered d.portSpace) {port : GuestPort} {name : PortName}
    (hname : (d.portSpace.allocateReceiveRight port).1 = some name) :
    name = d.portSpace.nextSyntheticName := h.allocatePort_name hname

theorem replyPort_unchanged (hd : d.Fresh) (hfail : failed 26 (replyPort d s).1 = true) :
    Unchanged d s (replyPort d s) := by
  have hzero : ((d.portSpace.allocateReceiveRight { type := .reply, queueLimit := 5 }).1.elim 0
      (·.setWidth 64) : BitVec 64) = 0 := by simpa [failed, replyPort] using hfail
  refine ⟨allocateReceiveRight_refused hd.numbered (elim_eq_zero ?_ hzero), rfl, .refl s⟩
  intro n hn
  rw [allocateReceiveRight_name hd.numbered hn]
  exact hd.numbered.next_ne_zero

theorem selfTrap_unchanged {copyout : GuestPortSpace → Option PortName × GuestPortSpace}
    (hrefused : (copyout d.portSpace).1 = none → (copyout d.portSpace).2 = d.portSpace)
    (hne : ∀ n, (copyout d.portSpace).1 = some n → n ≠ 0) {number : Nat}
    (hnumber : number = 27 ∨ number = 29)
    (hfail : failed number (selfTrap d s copyout).1 = true) :
    Unchanged d s (selfTrap d s copyout) := by
  have hzero : ((copyout d.portSpace).1.elim 0 (·.setWidth 64) : BitVec 64) = 0 := by
    rcases hnumber with rfl | rfl <;> simpa [failed, selfTrap] using hfail
  exact ⟨hrefused (elim_eq_zero hne hzero), rfl, .refl s⟩

theorem taskSelf_unchanged (hfail : failed 28 (taskSelf d s).1 = true) :
    Unchanged d s (taskSelf d s) := by
  revert hfail
  unfold taskSelf
  split
  · exact fun _ => .rfl
  · split
    · exact fun _ => .rfl
    · exact nofun

theorem specialReplyPort_unchanged (hd : d.Fresh) (hfail : failed 50 (specialReplyPort d s).1 = true) :
    Unchanged d s (specialReplyPort d s) := by
  revert hfail
  unfold specialReplyPort
  split
  · exact fun _ => .rfl
  · split
    · next ports heq =>
      have hports := allocateReceiveRight_refused hd.numbered (congrArg Prod.fst heq)
      rw [heq] at hports
      exact fun _ => ⟨hports, rfl, .refl s⟩
    · next name ports heq =>
      intro hfail
      have hname := allocateReceiveRight_name hd.numbered (congrArg Prod.fst heq)
      have hzero : (some name).elim (0 : BitVec 64) (·.setWidth 64) = 0 := by
        simpa [failed] using hfail
      cases elim_eq_zero (fun n hn => by
        cases hn
        rw [hname]
        exact hd.numbered.next_ne_zero) hzero

theorem createVoucher_unchanged (hd : d.Fresh) (hr : Regular s)
    (hrecipe : NoneFails s (regs .rsi).toNat (regs .rdx).toNat)
    (houtput : NoneFails s (regs .r10).toNat 8)
    (hfail : failed 70 (createVoucher (guestServices refused replies) regs d s).1 = true) :
    Unchanged d s (createVoucher (guestServices refused replies) regs d s) := by
  revert hfail
  unfold createVoucher
  split
  · exact fun _ => .rfl
  · split
    · next hread =>
      have hcalm := calm_of_caught (readInto_calm hr hrecipe) hread
      exact fun _ => .of_memory (hcalm.sameMemory hr)
    · next hread =>
      have hcalm := calm_of_caught (readInto_calm hr hrecipe) hread
      have hr1 := hcalm.regular hr
      split
      · next hvalid =>
        have hcalm2 := hcalm.trans (validateWrite_calm hr1.inv hvalid)
        exact fun _ => .of_memory (hcalm2.sameMemory hr)
      · next hvalid =>
        have hcalm2 := hcalm.trans (validateWrite_calm hr1.inv hvalid)
        dsimp only
        split
        · exact nofun
        · next hwrite =>
          refine fun _ => ⟨rfl, ?_, (hcalm2.sameMemory hr).trans ?_⟩
          · dsimp only
            rw [List.insert_of_not_mem hd.voucher, List.erase_cons_head]
          · exact writeBytes_false (hcalm2.regular hr)
              (by simpa using hcalm2.noneFails hr houtput) hwrite

theorem timerCreate_unchanged (hd : d.Fresh) (hfail : failed 91 (timerCreate d s).1 = true) :
    Unchanged d s (timerCreate d s) := by
  refine ⟨allocateReceiveRight_refused hd.numbered ?_, rfl, .refl s⟩
  cases hname : (d.portSpace.allocateReceiveRight { type := .timer, queueLimit := 5 }).1 with
  | none => rfl
  | some name =>
    have hthree : ((d.portSpace.allocateReceiveRight { type := .timer, queueLimit := 5 }).1.elim 3
        (·.setWidth 64) : BitVec 64) = 3 := by simpa [failed, timerCreate] using hfail
    rw [hname] at hthree
    have htask := hd.numbered.task
    rw [← allocateReceiveRight_name hd.numbered hname] at htask
    have : name = 3 := by
      have := congrArg (BitVec.setWidth 32) hthree
      simpa using this
    rw [this] at htask
    exact absurd htask (by decide)

/-! ## Messages -/

/-- The buffers of a message touch no page whose callback throws. -/
structure MessageReadable (regs : TrapArguments) (s : AddressSpace) : Prop where
  receiveSize : NoneFails s (regs .rsp + 8).toNat 8
  timeout : NoneFails s (regs .rsp + 16).toNat 8
  message : NoneFails s (regs .rdi).toNat (highHalf (regs .rdx)).toNat

theorem MessageReadable.calm (h : MessageReadable regs s) (hr : Regular s) (hcalm : Calm s s') :
    MessageReadable regs s' :=
  ⟨hcalm.noneFails hr h.receiveSize, hcalm.noneFails hr h.timeout, hcalm.noneFails hr h.message⟩

/-- An unsupported message is read once more for the report. -/
theorem MessageReadable.inspect (h : MessageReadable regs s) (hr : Regular s)
    (hcalm : Calm s s') : SameMemory s (inspectUnsupportedMachMessage2 regs s') := by
  have h' := h.calm hr hcalm
  exact (hcalm.sameMemory hr).trans
    (inspect_sameMemory (hcalm.regular hr) h'.receiveSize h'.timeout h'.message)

theorem replyTo_failed (hr : Regular s) (hmessage : MessageReadable regs s) {reply : List Byte}
    (hfail : failed 47 (replyTo regs reply s).1 = true) :
    SameMemory s (replyTo regs reply s).2 := by
  revert hfail
  unfold replyTo
  split
  · next hx =>
    have hcalm := calm_of_caught (validateAccess_calm hr.inv _ _ _) hx
    exact fun _ => hmessage.inspect hr hcalm
  · unfold uncaught
    split
    · exact nofun
    · exact nofun

theorem machVmMap_failed (hr : Regular s) (hmessage : MessageReadable regs s) {message : List Byte}
    (hfail : failed 47 (machVmMap refused replies regs message s).1 = true) :
    SameMemory s (machVmMap refused replies regs message s).2 := by
  revert hfail
  unfold machVmMap
  split
  · next hx =>
    have hcalm := calm_of_caught (validateAccess_calm hr.inv _ _ _) hx
    exact fun _ => hmessage.inspect hr hcalm
  · dsimp only
    split
    · exact nofun
    · exact nofun

theorem memoryRequest_failed (hr : Regular s) (hmessage : MessageReadable regs s)
    {ports : GuestPortSpace} {receiveSizeAndPriority timeout : BitVec 64} {message : List Byte}
    (hfail : failed 47 (memoryRequest refused replies regs ports receiveSizeAndPriority timeout
      message s).1 = true) :
    SameMemory s (memoryRequest refused replies regs ports receiveSizeAndPriority timeout
      message s).2 := by
  revert hfail
  unfold memoryRequest
  split
  · exact replyTo_failed hr hmessage
  · split
    · exact replyTo_failed hr hmessage
    · split
      · exact machVmMap_failed hr hmessage
      · exact fun _ => hmessage.inspect hr (.refl s)

theorem copyoutRight_refused (h : Numbered d.portSpace) {request : MachRequest}
    {ports : GuestPortSpace} (hcopy : copyoutRight request d.portSpace = some (none, ports)) :
    ports = d.portSpace := by
  cases request with
  | hostClockService =>
    have heq := Option.some.inj hcopy
    exact (congrArg Prod.snd heq).symm.trans
      (h.copyoutClockSendRight_refused (congrArg Prod.fst heq))
  | hostSpecialPort =>
    have heq := Option.some.inj hcopy
    exact (congrArg Prod.snd heq).symm.trans
      (h.copyoutHostSendRight_refused (congrArg Prod.fst heq))
  | taskSpecialPort =>
    have heq := Option.some.inj hcopy
    exact (congrArg Prod.snd heq).symm.trans
      (h.copyoutBootstrapSendRight_refused (congrArg Prod.fst heq))
  | semaphoreCreate =>
    have heq := Option.some.inj hcopy
    exact (congrArg Prod.snd heq).symm.trans
      (congrArg Prod.snd (h.allocatePort_refused (congrArg Prod.fst heq)))
  | hostBasicInfo => cases hcopy
  | hostPriorityInfo => cases hcopy
  | taskAuditToken => cases hcopy

theorem answer_unchanged (hd : d.Fresh) (hr : Regular s) (hmessage : MessageReadable regs s)
    {request : MachRequest}
    (hfail : failed 47 (answer (guestServices refused replies) regs d s request).1 = true) :
    Unchanged d s (answer (guestServices refused replies) regs d s request) := by
  revert hfail
  unfold answer
  split
  · next hvalid =>
    exact fun _ => .of_memory (hmessage.inspect hr (validateWrite_calm hr.inv hvalid))
  · next s1 hvalid =>
    have hcalm := validateWrite_calm hr.inv hvalid
    dsimp only
    split
    · split
      · exact nofun
      · exact nofun
    · next hcopy =>
      exact fun _ => ⟨copyoutRight_refused hd.numbered hcopy, rfl, hmessage.inspect hr hcalm⟩
    · split
      · exact nofun
      · exact nofun

theorem machMessage2_unchanged (hd : d.Fresh) (hr : Regular s)
    (hmessage : MessageReadable regs s)
    (hfail : failed 47 (machMessage2 (guestServices refused replies) regs d s).1 = true) :
    Unchanged d s (machMessage2 (guestServices refused replies) regs d s) := by
  revert hfail
  unfold machMessage2
  split
  · exact fun _ => .rfl
  · split
    · exact fun _ => .of_memory (hmessage.inspect hr (.refl s))
    · split
      · next hx =>
        have hcalm := calm_of_caught (readGuestU64_calm hr hmessage.receiveSize) hx
        exact fun _ => .of_memory (hmessage.inspect hr hcalm)
      · next hx =>
        have hcalm := calm_of_caught (readGuestU64_calm hr hmessage.receiveSize) hx
        have hr1 := hcalm.regular hr
        have hmessage1 := hmessage.calm hr hcalm
        split
        · next hx =>
          have hcalm1 := calm_of_caught (readGuestU64_calm hr1 hmessage1.timeout) hx
          exact fun _ => .of_memory (hmessage.inspect hr (hcalm.trans hcalm1))
        · next hx =>
          have hcalm2 := hcalm.trans
            (calm_of_caught (readGuestU64_calm hr1 hmessage1.timeout) hx)
          have hr2 := hcalm2.regular hr
          have hmessage2 := hmessage.calm hr hcalm2
          split
          · next hx =>
            have hcalm3 := calm_of_caught (readInto_calm hr2 hmessage2.message) hx
            exact fun _ => .of_memory (hmessage.inspect hr (hcalm2.trans hcalm3))
          · next hx =>
            have hcalm3 := hcalm2.trans
              (calm_of_caught (readInto_calm hr2 hmessage2.message) hx)
            have hr3 := hcalm3.regular hr
            have hmessage3 := hmessage.calm hr hcalm3
            split
            · exact fun _ => .of_memory (hcalm3.sameMemory hr)
            · split
              · intro hfail
                obtain ⟨hports, hvouchers, hmemory⟩ :=
                  answer_unchanged hd hr3 hmessage3 hfail
                exact ⟨hports, hvouchers, (hcalm3.sameMemory hr).trans hmemory⟩
              · exact fun hfail => .of_memory ((hcalm3.sameMemory hr).trans
                  (memoryRequest_failed hr3 hmessage3 hfail))

/-! ## All traps -/

end

/-! ## The pages of the shared cache -/

/-- The callback of the shared cache works on its page, up to what it wrote before it threw. -/
theorem pageLocal_applySlideInfo2Page (slideInfo : List Byte) (info : SlideInfo2)
    (slide : BitVec 64) (size : Nat) :
    PageLocal (cleanedTransform (applySlideInfo2Page slideInfo info slide)) info.pageSize size := by
  refine ⟨fun bytes page i hi => ?_, fun bytes page h i _ => ?_, fun bytes bytes' page h => ?_⟩
  · have hsame := applySlideInfo2Page_samePage slideInfo info slide size page
      (fun i _ _ => rfl : ∀ i < size, i / info.pageSize = page → bytes i = bytes i)
    unfold cleanedTransform
    dsimp only
    split
    · rfl
    · exact hsame.outside i hi
  · have h' : (applySlideInfo2Page slideInfo info slide size bytes page).2.isSome = true := h
    simp [cleanedTransform, h']
  · have hsame := applySlideInfo2Page_samePage slideInfo info slide size page h
    refine ⟨hsame.result, fun i hi hp => ?_⟩
    unfold cleanedTransform
    dsimp only
    rw [hsame.result]
    split
    · exact h i hi hp
    · exact hsame.inside i hi hp

/-- A space with a page of the shared cache is regular, whether its chain breaks or not. -/
theorem regular_slideRun (word : BitVec 64) : Regular (slideRun word []).final := by
  have hinstall : (slideRun word []).install.StaysRegular (slideRun word []).before := by
    rw [slideRun_before]
    intro m hm _
    rw [List.mem_singleton.mp hm]
    exact ⟨rfl, pageLocal_applySlideInfo2Page _ _ _ _⟩
  have hbefore : Regular (slideRun word []).before := regular_afterAll ⟨trivial, trivial⟩
  exact hbefore.after hinstall

/-- Replies without content. -/
def emptyReplies : MachReplies where
  request _ _ _ := []
  taskSetSpecialPort _ := []
  restartableRangesRegister _ := []
  machVmMap _ _ _ := []

theorem fresh_initial : MachDispatcher.initial.Fresh := fresh_run noMemory [] (by decide)

/-- `mach_port_construct` with its options at `0x1000`. -/
def constructArguments : TrapArguments
  | .rax => 0x1000018
  | .rdi => 0x103
  | .rsi => 0x1000
  | _ => 0

/-- `mach_port_allocate` of a receive right, with its output at `0x1000`. -/
def allocateArguments : TrapArguments
  | .rax => 0x1000010
  | .rdi => 0x103
  | .rsi => 1
  | .rdx => 0x1000
  | _ => 0

end Rosa.Darwin
