import Mathlib.Tactic

/-!
# The port space of the guest task

`darwin/PortSpace.cpp`. A port is stored under its name with the rights that the guest holds
on it : the receive right, and user references of send and send-once rights. Names are given
out in steps of `0x100` from `0x203` on, and `0x103` is the task itself. The host, the thread,
the bootstrap port and the clocks are made when they are first asked for, and their names are
remembered.

`deallocateUref` holds the removal rule : a port goes with its last right, and a remembered
name with its port. `Inv` is what the rule is for.
-/

namespace Rosa.Darwin

/-- `GuestMachPortName`. -/
abbrev PortName := BitVec 32

/-- `GuestPortType`. -/
inductive GuestPortType
  | ordinary | reply | host | thread | bootstrap | clock | semaphore | portSet | timer
  deriving DecidableEq, Repr

/-- `GuestPort`. -/
structure GuestPort where
  name : PortName := 0
  type : GuestPortType := .ordinary
  hasReceiveRight : Bool := false
  sendUrefs : Nat := 0
  sendOnceUrefs : Nat := 0
  context : BitVec 64 := 0
  queueLimit : BitVec 32 := 0
  guarded : Bool := false
  guard : BitVec 64 := 0
  strictGuard : Bool := false
  optionFlags : BitVec 32 := 0
  members : List PortName := []
  deriving DecidableEq, Repr

/-- `GuestPortSpace`. -/
structure GuestPortSpace where
  ports : PortName → Option GuestPort
  nextSyntheticName : PortName
  hostSelfName : Option PortName
  threadSelfName : Option PortName
  bootstrapName : Option PortName
  clockServiceNames : BitVec 32 → Option PortName

/-- `taskSelfName`. -/
def taskSelfName : PortName := 0x103

/-- `syntheticNameStride`. -/
def syntheticNameStride : PortName := 0x100

/-- `std::numeric_limits<std::uint32_t>::max() - syntheticNameStride`. -/
def lastName : PortName := 0xFFFFFEFF

namespace GuestPortSpace

/-- The constructor : the task's own port, without rights. -/
def initial : GuestPortSpace where
  ports := Function.update (fun _ => none) taskSelfName (some { name := taskSelfName })
  nextSyntheticName := 0x203
  hostSelfName := none
  threadSelfName := none
  bootstrapName := none
  clockServiceNames _ := none

/-- `lookup`. -/
def lookup (s : GuestPortSpace) (name : PortName) : Option GuestPort := s.ports name

/-- `ownsReceiveRight`. -/
def ownsReceiveRight (s : GuestPortSpace) (name : PortName) : Bool :=
  (s.lookup name).any GuestPort.hasReceiveRight

/-- The port stored under a name, replaced. -/
def setPort (s : GuestPortSpace) (name : PortName) (port : Option GuestPort) : GuestPortSpace :=
  { s with ports := Function.update s.ports name port }

/-- The loop of `allocatePort` : the first free name from a candidate on. There are at most
`2 ^ 24` candidates. -/
def freeName (s : GuestPortSpace) : Nat → PortName → Option PortName
  | 0, _ => none
  | turns + 1, candidate =>
    if lastName < candidate then none
    else if (s.ports candidate).isSome then freeName s turns (candidate + syntheticNameStride)
    else some candidate

/-- `allocatePort`. -/
def allocatePort (s : GuestPortSpace) (attributes : GuestPort) :
    Option PortName × GuestPortSpace :=
  match s.freeName (2 ^ 24) s.nextSyntheticName with
  | none => (none, s)
  | some name =>
    (some name, { s.setPort name (some { attributes with name := name }) with
      nextSyntheticName := name + syntheticNameStride })

/-- `allocateReceiveRight`. -/
def allocateReceiveRight (s : GuestPortSpace) (attributes : GuestPort) :
    Option PortName × GuestPortSpace :=
  s.allocatePort { attributes with hasReceiveRight := true }

/-- One more send right on a remembered port, if it is there, is of the type and is below
the limit. -/
def addSendRight (s : GuestPortSpace) (name : PortName) (ok : GuestPort → Bool)
    (maximumUrefs : Nat) : Option PortName × GuestPortSpace :=
  match s.lookup name with
  | some port =>
    if !ok port || port.sendUrefs == 0 || port.sendUrefs == maximumUrefs then (none, s)
    else (some name, s.setPort name (some { port with sendUrefs := port.sendUrefs + 1 }))
  | none => (none, s)

/-- `copyoutHostSendRight`. -/
def copyoutHostSendRight (s : GuestPortSpace) (maximumUrefs : Nat) :
    Option PortName × GuestPortSpace :=
  match s.hostSelfName with
  | some name => s.addSendRight name (fun port => port.type == .host) maximumUrefs
  | none =>
    let (name, s) := s.allocatePort { type := .host, sendUrefs := 1 }
    (name, { s with hostSelfName := name })

/-- `copyoutThreadSendRight`. -/
def copyoutThreadSendRight (s : GuestPortSpace) (maximumUrefs : Nat) :
    Option PortName × GuestPortSpace :=
  match s.threadSelfName with
  | some name => s.addSendRight name (fun port => port.type == .thread) maximumUrefs
  | none =>
    let (name, s) := s.allocatePort { type := .thread, sendUrefs := 1 }
    (name, { s with threadSelfName := name })

/-- `copyoutBootstrapSendRight`. -/
def copyoutBootstrapSendRight (s : GuestPortSpace) (maximumUrefs : Nat) :
    Option PortName × GuestPortSpace :=
  match s.bootstrapName with
  | some name => s.addSendRight name (fun port => port.type == .bootstrap) maximumUrefs
  | none =>
    let (name, s) := s.allocatePort { type := .bootstrap, sendUrefs := 1 }
    (name, { s with bootstrapName := name })

/-- `copyoutClockSendRight`. -/
def copyoutClockSendRight (s : GuestPortSpace) (clockId : BitVec 32) (maximumUrefs : Nat) :
    Option PortName × GuestPortSpace :=
  match s.clockServiceNames clockId with
  | some name =>
    s.addSendRight name (fun port => port.type == .clock && port.context == clockId.setWidth 64)
      maximumUrefs
  | none =>
    let (name, s) := s.allocatePort
      { type := .clock, context := clockId.setWidth 64, sendUrefs := 1 }
    (name, { s with clockServiceNames := Function.update s.clockServiceNames clockId name })

/-- `allocateSemaphoreSendRight`. -/
def allocateSemaphoreSendRight (s : GuestPortSpace) (policy value : BitVec 32) :
    Option PortName × GuestPortSpace :=
  s.allocatePort
    { type := .semaphore, sendUrefs := 1, context := value.setWidth 64, optionFlags := policy }

/-- `GuestPortDeallocateResult`. -/
inductive DeallocateUrefResult
  | success | invalidName | invalidRight
  deriving DecidableEq, Repr

/-- A remembered name, forgotten if it is `name`. -/
def forget (remembered : Option PortName) (name : PortName) : Option PortName :=
  if remembered = some name then none else remembered

/-- The port is removed, and the names that remember it. -/
def removePort (s : GuestPortSpace) (name : PortName) (port : GuestPort) : GuestPortSpace where
  ports := Function.update s.ports name none
  nextSyntheticName := s.nextSyntheticName
  hostSelfName := forget s.hostSelfName name
  threadSelfName := forget s.threadSelfName name
  bootstrapName := forget s.bootstrapName name
  clockServiceNames :=
    if port.type = .clock then
      Function.update s.clockServiceNames (port.context.setWidth 32) none
    else s.clockServiceNames

/-- `deallocateUref`. -/
def deallocateUref (s : GuestPortSpace) (name : PortName) :
    DeallocateUrefResult × GuestPortSpace :=
  if name = 0 ∨ name = 0xFFFFFFFF then (.success, s)
  else
    match s.ports name with
    | none => (.invalidName, s)
    | some port =>
      if port.sendUrefs = 0 ∧ port.sendOnceUrefs = 0 then (.invalidRight, s)
      else
        let port :=
          if port.sendUrefs ≠ 0 then { port with sendUrefs := port.sendUrefs - 1 }
          else { port with sendOnceUrefs := port.sendOnceUrefs - 1 }
        if name ≠ taskSelfName ∧ !port.hasReceiveRight ∧ port.sendUrefs = 0 ∧
            port.sendOnceUrefs = 0 then
          (.success, s.removePort name port)
        else (.success, s.setPort name (some port))

/-- `rollbackLastAllocation`. -/
def rollbackLastAllocation (s : GuestPortSpace) (name : PortName) : GuestPortSpace :=
  match s.ports name with
  | none => s
  | some port =>
    if name = taskSelfName then s
    else
      let removed := s.removePort name port
      if name ≤ lastName ∧ name + syntheticNameStride = s.nextSyntheticName then
        { removed with nextSyntheticName := name }
      else removed

end GuestPortSpace

/-! ## What the removal rule keeps -/

/-- `machPortUrefsMaximum`. -/
def machPortUrefsMaximum : Nat := 0xFFFF

namespace GuestPort

/-- The guest holds a right on the port. -/
def Righted (port : GuestPort) : Prop :=
  port.hasReceiveRight = true ∨ port.sendUrefs ≠ 0 ∨ port.sendOnceUrefs ≠ 0

/-- The user references are within the limit. -/
def Bounded (port : GuestPort) : Prop :=
  port.sendUrefs ≤ machPortUrefsMaximum ∧ port.sendOnceUrefs ≤ machPortUrefsMaximum

/-- A port of a type that is remembered has send rights only. -/
def SendOnly (port : GuestPort) : Prop :=
  port.type ∈ [.host, .thread, .bootstrap, .clock] →
    port.hasReceiveRight = false ∧ port.sendOnceUrefs = 0

theorem sendUrefs_ne_zero {port : GuestPort} (hr : port.Righted) (hs : port.SendOnly)
    (ht : port.type ∈ [.host, .thread, .bootstrap, .clock]) : port.sendUrefs ≠ 0 := by
  obtain ⟨hreceive, honce⟩ := hs ht
  rcases hr with h | h | h
  · rw [hreceive] at h
    cases h
  · exact h
  · exact absurd honce h

end GuestPort

namespace GuestPortSpace

/-- The names in use are below the next one. -/
structure Numbered (s : GuestPortSpace) : Prop where
  ports : ∀ n p, s.ports n = some p → n < s.nextSyntheticName
  host : ∀ n, s.hostSelfName = some n → n ≠ 0 ∧ n < s.nextSyntheticName
  thread : ∀ n, s.threadSelfName = some n → n ≠ 0 ∧ n < s.nextSyntheticName
  bootstrap : ∀ n, s.bootstrapName = some n → n ≠ 0 ∧ n < s.nextSyntheticName
  task : taskSelfName < s.nextSyntheticName

/-- The invariant of a port space. -/
structure Inv (s : GuestPortSpace) : Prop where
  named : ∀ n p, s.ports n = some p → p.name = n
  aligned : ∀ n p, s.ports n = some p → n.toNat % 256 = 3 ∧ n < s.nextSyntheticName
  righted : ∀ n p, s.ports n = some p → n ≠ taskSelfName → p.Righted
  bounded : ∀ n p, s.ports n = some p → p.Bounded
  sendOnly : ∀ n p, s.ports n = some p → p.SendOnly
  task : ∃ p, s.ports taskSelfName = some p ∧ p.type = .ordinary
  host : ∀ n, s.hostSelfName = some n → ∃ p, s.ports n = some p ∧ p.type = .host
  thread : ∀ n, s.threadSelfName = some n → ∃ p, s.ports n = some p ∧ p.type = .thread
  bootstrap : ∀ n, s.bootstrapName = some n → ∃ p, s.ports n = some p ∧ p.type = .bootstrap
  clock : ∀ id n, s.clockServiceNames id = some n →
    ∃ p, s.ports n = some p ∧ p.type = .clock ∧ p.context = id.setWidth 64
  next : s.nextSyntheticName.toNat % 256 = 3 ∧ taskSelfName < s.nextSyntheticName

theorem inv_initial : Inv initial := by
  have hport (n : PortName) (p : GuestPort) (h : initial.ports n = some p) :
      n = taskSelfName ∧ p = { name := taskSelfName } := by
    simp only [initial, Function.update_apply] at h
    split at h
    · next hn => exact ⟨hn, (Option.some.inj h).symm⟩
    · cases h
  refine ⟨?_, ?_, ?_, ?_, ?_, ⟨{ name := taskSelfName }, by simp [initial], rfl⟩,
    ?_, ?_, ?_, ?_, by decide⟩
  · rintro n p h
    obtain ⟨rfl, rfl⟩ := hport n p h
    rfl
  · rintro n p h
    obtain ⟨rfl, rfl⟩ := hport n p h
    decide
  · rintro n p h hne
    exact absurd (hport n p h).1 hne
  · rintro n p h
    obtain ⟨rfl, rfl⟩ := hport n p h
    exact ⟨Nat.zero_le _, Nat.zero_le _⟩
  · rintro n p h ht
    obtain ⟨rfl, rfl⟩ := hport n p h
    exact ⟨rfl, rfl⟩
  all_goals
    intros
    simp_all [initial]

variable {s : GuestPortSpace}

theorem Inv.name_ne_zero (h : Inv s) {n : PortName} {p : GuestPort} (hp : s.ports n = some p) :
    n ≠ 0 := by
  rintro rfl
  exact absurd (h.aligned 0 p hp).1 (by decide)

theorem Inv.numbered (h : Inv s) : Numbered s where
  ports n p hp := (h.aligned n p hp).2
  host n hn := by
    obtain ⟨p, hp, -⟩ := h.host n hn
    exact ⟨h.name_ne_zero hp, (h.aligned n p hp).2⟩
  thread n hn := by
    obtain ⟨p, hp, -⟩ := h.thread n hn
    exact ⟨h.name_ne_zero hp, (h.aligned n p hp).2⟩
  bootstrap n hn := by
    obtain ⟨p, hp, -⟩ := h.bootstrap n hn
    exact ⟨h.name_ne_zero hp, (h.aligned n p hp).2⟩
  task := h.next.2

theorem Numbered.next_ne_zero (h : Numbered s) : s.nextSyntheticName ≠ 0 := by
  intro hzero
  have := h.task
  rw [hzero] at this
  exact absurd this (by decide)

theorem Numbered.next_free (h : Numbered s) : s.ports s.nextSyntheticName = none := by
  cases hp : s.ports s.nextSyntheticName with
  | none => rfl
  | some p => exact absurd (h.ports _ p hp) (by simp)

/-- A port is changed in place and keeps a right. -/
theorem Inv.setPort (h : Inv s) {n : PortName} {p p' : GuestPort} (hp : s.ports n = some p)
    (hname : p'.name = p.name) (htype : p'.type = p.type) (hcontext : p'.context = p.context)
    (hreceive : p'.hasReceiveRight = p.hasReceiveRight)
    (honce : p'.sendOnceUrefs ≤ p.sendOnceUrefs)
    (hsend : p.sendUrefs ≤ machPortUrefsMaximum → p'.sendUrefs ≤ machPortUrefsMaximum)
    (hright : n ≠ taskSelfName → p'.Righted) : Inv (s.setPort n (some p')) := by
  have hport (m : PortName) (q : GuestPort) (hq : (s.setPort n (some p')).ports m = some q) :
      (m = n ∧ q = p') ∨ s.ports m = some q := by
    simp only [GuestPortSpace.setPort, Function.update_apply] at hq
    split at hq
    · next hm => exact .inl ⟨hm, (Option.some.inj hq).symm⟩
    · exact .inr hq
  have hkept (m : PortName) (q : GuestPort) (hq : s.ports m = some q) :
      ∃ q', (s.setPort n (some p')).ports m = some q' ∧ q'.type = q.type ∧
        q'.context = q.context := by
    by_cases hm : m = n
    · obtain rfl : p = q := by simpa [hm, hp] using hq
      exact ⟨p', by simp [GuestPortSpace.setPort, hm], htype, hcontext⟩
    · exact ⟨q, by simp [GuestPortSpace.setPort, hm, hq], rfl, rfl⟩
  refine ⟨?_, ?_, ?_, ?_, ?_, ?_, ?_, ?_, ?_, ?_, h.next⟩
  · rintro m q hq
    rcases hport m q hq with ⟨rfl, rfl⟩ | hq
    · rw [hname, h.named m p hp]
    · exact h.named m q hq
  · rintro m q hq
    rcases hport m q hq with ⟨rfl, rfl⟩ | hq
    · exact h.aligned m p hp
    · exact h.aligned m q hq
  · rintro m q hq hne
    rcases hport m q hq with ⟨rfl, rfl⟩ | hq
    · exact hright hne
    · exact h.righted m q hq hne
  · rintro m q hq
    rcases hport m q hq with ⟨rfl, rfl⟩ | hq
    · exact ⟨hsend (h.bounded m p hp).1, honce.trans (h.bounded m p hp).2⟩
    · exact h.bounded m q hq
  · rintro m q hq
    rcases hport m q hq with ⟨rfl, rfl⟩ | hq
    · intro ht
      obtain ⟨h1, h2⟩ := h.sendOnly m p hp (htype ▸ ht)
      exact ⟨hreceive.trans h1, by omega⟩
    · exact h.sendOnly m q hq
  · obtain ⟨t, ht, hty⟩ := h.task
    obtain ⟨t', ht', hty', -⟩ := hkept _ t ht
    exact ⟨t', ht', hty'.trans hty⟩
  · intro m hm
    obtain ⟨q, hq, hty⟩ := h.host m hm
    obtain ⟨q', hq', hty', -⟩ := hkept m q hq
    exact ⟨q', hq', hty'.trans hty⟩
  · intro m hm
    obtain ⟨q, hq, hty⟩ := h.thread m hm
    obtain ⟨q', hq', hty', -⟩ := hkept m q hq
    exact ⟨q', hq', hty'.trans hty⟩
  · intro m hm
    obtain ⟨q, hq, hty⟩ := h.bootstrap m hm
    obtain ⟨q', hq', hty', -⟩ := hkept m q hq
    exact ⟨q', hq', hty'.trans hty⟩
  · intro id m hm
    obtain ⟨q, hq, hty, hctx⟩ := h.clock id m hm
    obtain ⟨q', hq', hty', hctx'⟩ := hkept m q hq
    exact ⟨q', hq', hty'.trans hty, hctx'.trans hctx⟩

/-- The space with a new port under the next name. -/
def added (s : GuestPortSpace) (attributes : GuestPort) : GuestPortSpace :=
  { s.setPort s.nextSyntheticName (some { attributes with name := s.nextSyntheticName }) with
    nextSyntheticName := s.nextSyntheticName + syntheticNameStride }

/-- Allocation takes the next name, if there is one. -/
theorem Numbered.allocatePort_eq (h : Numbered s) (attributes : GuestPort) :
    (lastName < s.nextSyntheticName ∧ s.allocatePort attributes = (none, s)) ∨
      (s.nextSyntheticName ≤ lastName ∧
        s.allocatePort attributes = (some s.nextSyntheticName, s.added attributes)) := by
  have hname : s.freeName (2 ^ 24) s.nextSyntheticName =
      if lastName < s.nextSyntheticName then none else some s.nextSyntheticName := by
    rw [show (2 : Nat) ^ 24 = 16777215 + 1 from rfl, freeName, h.next_free]
    rfl
  unfold allocatePort
  by_cases hlt : lastName < s.nextSyntheticName
  · rw [if_pos hlt] at hname
    exact .inl ⟨hlt, by rw [hname]⟩
  · rw [if_neg hlt] at hname
    exact .inr ⟨BitVec.not_lt.mp hlt, by rw [hname]; rfl⟩

theorem toNat_next (hle : s.nextSyntheticName ≤ lastName) :
    (s.nextSyntheticName + syntheticNameStride).toNat = s.nextSyntheticName.toNat + 256 := by
  have hlast : s.nextSyntheticName.toNat ≤ 0xFFFFFEFF := hle
  rw [BitVec.toNat_add, show syntheticNameStride.toNat = 256 from rfl]
  omega

theorem Inv.added (h : Inv s) (hle : s.nextSyntheticName ≤ lastName) {attributes : GuestPort}
    (hright : attributes.Righted) (hbound : attributes.Bounded)
    (honly : attributes.SendOnly) : Inv (s.added attributes) := by
  have hnext := toNat_next hle
  have hport (m : PortName) (q : GuestPort) (hq : (s.added attributes).ports m = some q) :
      (m = s.nextSyntheticName ∧ q = { attributes with name := m }) ∨ s.ports m = some q := by
    simp only [GuestPortSpace.added, GuestPortSpace.setPort, Function.update_apply] at hq
    split at hq
    · next hm => exact .inl ⟨hm, by rw [hm]; exact (Option.some.inj hq).symm⟩
    · exact .inr hq
  have hkept (m : PortName) (q : GuestPort) (hq : s.ports m = some q) :
      (s.added attributes).ports m = some q := by
    have hm : m ≠ s.nextSyntheticName := fun hm => by
      rw [hm, h.numbered.next_free] at hq
      cases hq
    simp [GuestPortSpace.added, GuestPortSpace.setPort, hm, hq]
  have hnew : s.nextSyntheticName < s.nextSyntheticName + syntheticNameStride :=
    BitVec.lt_def.mpr (by omega)
  refine ⟨?_, ?_, ?_, ?_, ?_, ?_, ?_, ?_, ?_, ?_, ?_⟩
  · rintro m q hq
    rcases hport m q hq with ⟨-, rfl⟩ | hq
    · rfl
    · exact h.named m q hq
  · rintro m q hq
    rcases hport m q hq with ⟨rfl, -⟩ | hq
    · exact ⟨h.next.1, hnew⟩
    · obtain ⟨h1, h2⟩ := h.aligned m q hq
      exact ⟨h1, BitVec.lt_trans h2 hnew⟩
  · rintro m q hq hne
    rcases hport m q hq with ⟨-, rfl⟩ | hq
    · exact hright
    · exact h.righted m q hq hne
  · rintro m q hq
    rcases hport m q hq with ⟨-, rfl⟩ | hq
    · exact hbound
    · exact h.bounded m q hq
  · rintro m q hq
    rcases hport m q hq with ⟨-, rfl⟩ | hq
    · exact honly
    · exact h.sendOnly m q hq
  · obtain ⟨t, ht, hty⟩ := h.task
    exact ⟨t, hkept _ t ht, hty⟩
  · intro m hm
    obtain ⟨q, hq, hty⟩ := h.host m hm
    exact ⟨q, hkept m q hq, hty⟩
  · intro m hm
    obtain ⟨q, hq, hty⟩ := h.thread m hm
    exact ⟨q, hkept m q hq, hty⟩
  · intro m hm
    obtain ⟨q, hq, hty⟩ := h.bootstrap m hm
    exact ⟨q, hkept m q hq, hty⟩
  · intro id m hm
    obtain ⟨q, hq, hty⟩ := h.clock id m hm
    exact ⟨q, hkept m q hq, hty⟩
  · obtain ⟨h1, h2⟩ := h.next
    refine ⟨?_, BitVec.lt_trans h2 hnew⟩
    change (s.nextSyntheticName + syntheticNameStride).toNat % 256 = 3
    omega

theorem ports_added (s : GuestPortSpace) (attributes : GuestPort) :
    (s.added attributes).ports s.nextSyntheticName =
      some { attributes with name := s.nextSyntheticName } := by
  simp [GuestPortSpace.added, GuestPortSpace.setPort]

/-- A port is removed with the names that remember it. -/
theorem Inv.removePort (h : Inv s) {n : PortName} {p q : GuestPort} (hp : s.ports n = some p)
    (hne : n ≠ taskSelfName) (htype : q.type = p.type) (hcontext : q.context = p.context) :
    Inv (s.removePort n q) := by
  have hport (m : PortName) (r : GuestPort) (hr : (s.removePort n q).ports m = some r) :
      s.ports m = some r := by
    simp only [GuestPortSpace.removePort, Function.update_apply] at hr
    split at hr
    · cases hr
    · exact hr
  have hkept {m : PortName} (hm : m ≠ n) : (s.removePort n q).ports m = s.ports m := by
    simp [GuestPortSpace.removePort, hm]
  have hforget {remembered : Option PortName} {m : PortName}
      (hm : forget remembered n = some m) : remembered = some m ∧ m ≠ n := by
    unfold forget at hm
    split at hm
    · cases hm
    · next hne =>
      refine ⟨hm, ?_⟩
      rintro rfl
      exact hne hm
  refine ⟨fun m r hr => h.named m r (hport m r hr), fun m r hr => h.aligned m r (hport m r hr),
    fun m r hr => h.righted m r (hport m r hr), fun m r hr => h.bounded m r (hport m r hr),
    fun m r hr => h.sendOnly m r (hport m r hr), ?_, ?_, ?_, ?_, ?_, h.next⟩
  · obtain ⟨t, ht, hty⟩ := h.task
    exact ⟨t, (hkept hne.symm).trans ht, hty⟩
  · intro m hm
    obtain ⟨hm, hmn⟩ := hforget hm
    rw [hkept hmn]
    exact h.host m hm
  · intro m hm
    obtain ⟨hm, hmn⟩ := hforget hm
    rw [hkept hmn]
    exact h.thread m hm
  · intro m hm
    obtain ⟨hm, hmn⟩ := hforget hm
    rw [hkept hmn]
    exact h.bootstrap m hm
  · intro id m hm
    have hold : s.clockServiceNames id = some m ∧ m ≠ n := by
      simp only [GuestPortSpace.removePort] at hm
      split at hm
      · rw [Function.update_apply] at hm
        split at hm
        · cases hm
        · next hid =>
          refine ⟨hm, ?_⟩
          rintro rfl
          obtain ⟨r, hr, -, hctx⟩ := h.clock id m hm
          obtain rfl : p = r := by simpa [hp] using hr
          apply hid
          rw [hcontext, hctx]
          simp
      · next hty =>
        refine ⟨hm, ?_⟩
        rintro rfl
        obtain ⟨r, hr, hclock, -⟩ := h.clock id m hm
        obtain rfl : p = r := by simpa [hp] using hr
        exact hty (htype.trans hclock)
    rw [hkept hold.2]
    exact h.clock id m hold.1

/-! ## Steps -/

/-- What an operation does to a port space. `strips` says that the last right of a port may be
taken without the port. -/
inductive PortStep (strips : Prop) (s : GuestPortSpace) : GuestPortSpace → Prop
  | refl : PortStep strips s s
  | change {n : PortName} {p p' : GuestPort} (hp : s.ports n = some p) (hname : p'.name = p.name)
      (htype : p'.type = p.type) (hcontext : p'.context = p.context)
      (hreceive : p'.hasReceiveRight = p.hasReceiveRight)
      (honce : p'.sendOnceUrefs ≤ p.sendOnceUrefs)
      (hsend : p.sendUrefs ≤ machPortUrefsMaximum → p'.sendUrefs ≤ machPortUrefsMaximum)
      (hright : n ≠ taskSelfName → p.Righted → strips ∨ p'.Righted) :
      PortStep strips s (s.setPort n (some p'))
  | remove {n : PortName} {p q : GuestPort} (hp : s.ports n = some p) (hne : n ≠ taskSelfName)
      (htype : q.type = p.type) (hcontext : q.context = p.context) :
      PortStep strips s (s.removePort n q)
  | add {attributes : GuestPort} (hle : s.nextSyntheticName ≤ lastName)
      (hright : attributes.Righted) (hbound : attributes.Bounded) (honly : attributes.SendOnly) :
      PortStep strips s (s.added attributes)
  | addHost (hle : s.nextSyntheticName ≤ lastName) :
      PortStep strips s { s.added { type := .host, sendUrefs := 1 } with
        hostSelfName := some s.nextSyntheticName }
  | addThread (hle : s.nextSyntheticName ≤ lastName) :
      PortStep strips s { s.added { type := .thread, sendUrefs := 1 } with
        threadSelfName := some s.nextSyntheticName }
  | addBootstrap (hle : s.nextSyntheticName ≤ lastName) :
      PortStep strips s { s.added { type := .bootstrap, sendUrefs := 1 } with
        bootstrapName := some s.nextSyntheticName }
  | addClock (hle : s.nextSyntheticName ≤ lastName) (clockId : BitVec 32) :
      PortStep strips s
        { s.added { type := .clock, context := clockId.setWidth 64, sendUrefs := 1 } with
          clockServiceNames :=
            Function.update s.clockServiceNames clockId (some s.nextSyntheticName) }

theorem Numbered.added (h : Numbered s) (hle : s.nextSyntheticName ≤ lastName)
    (attributes : GuestPort) :
    Numbered (s.added attributes) ∧
      s.nextSyntheticName < (s.added attributes).nextSyntheticName := by
  have hnew : s.nextSyntheticName < s.nextSyntheticName + syntheticNameStride :=
    BitVec.lt_def.mpr (by rw [toNat_next hle]; omega)
  have hold {n : PortName} (hn : n ≠ 0 ∧ n < s.nextSyntheticName) :
      n ≠ 0 ∧ n < s.nextSyntheticName + syntheticNameStride := ⟨hn.1, BitVec.lt_trans hn.2 hnew⟩
  refine ⟨⟨fun n p hp => ?_, fun n hn => hold (h.host n hn), fun n hn => hold (h.thread n hn),
    fun n hn => hold (h.bootstrap n hn), BitVec.lt_trans h.task hnew⟩, hnew⟩
  simp only [GuestPortSpace.added, GuestPortSpace.setPort, Function.update_apply] at hp
  split at hp
  · next hn =>
    rw [hn]
    exact hnew
  · exact BitVec.lt_trans (h.ports n p hp) hnew

/-- A step keeps the names below the next one. -/
theorem Numbered.step {strips : Prop} {s' : GuestPortSpace} (h : Numbered s)
    (hstep : PortStep strips s s') : Numbered s' := by
  cases hstep with
  | refl => exact h
  | @change n p p' hp =>
    refine { h with ports := fun m q hq => ?_ }
    simp only [GuestPortSpace.setPort, Function.update_apply] at hq
    split at hq
    · next hm =>
      rw [hm]
      exact h.ports n p hp
    · exact h.ports m q hq
  | @remove n p q hp =>
    have hforget {remembered : Option PortName} {m : PortName}
        (hm : forget remembered n = some m) : remembered = some m := by
      unfold forget at hm
      split at hm
      · cases hm
      · exact hm
    refine ⟨fun m r hr => ?_, fun m hm => h.host m (hforget hm),
      fun m hm => h.thread m (hforget hm), fun m hm => h.bootstrap m (hforget hm), h.task⟩
    simp only [GuestPortSpace.removePort, Function.update_apply] at hr
    split at hr
    · cases hr
    · exact h.ports m r hr
  | add hle => exact (h.added hle _).1
  | addHost hle =>
    obtain ⟨hadded, hnext⟩ := h.added hle { type := .host, sendUrefs := 1 }
    refine { hadded with host := ?_ }
    rintro n ⟨⟩
    exact ⟨h.next_ne_zero, hnext⟩
  | addThread hle =>
    obtain ⟨hadded, hnext⟩ := h.added hle { type := .thread, sendUrefs := 1 }
    refine { hadded with thread := ?_ }
    rintro n ⟨⟩
    exact ⟨h.next_ne_zero, hnext⟩
  | addBootstrap hle =>
    obtain ⟨hadded, hnext⟩ := h.added hle { type := .bootstrap, sendUrefs := 1 }
    refine { hadded with bootstrap := ?_ }
    rintro n ⟨⟩
    exact ⟨h.next_ne_zero, hnext⟩
  | addClock hle clockId =>
    obtain ⟨hadded, -⟩ := h.added hle
      { type := .clock, context := clockId.setWidth 64, sendUrefs := 1 }
    exact { hadded with }

/-- A new port with one send right. -/
theorem Inv.addedSendRight (h : Inv s) (hle : s.nextSyntheticName ≤ lastName)
    {attributes : GuestPort} (hsend : attributes.sendUrefs = 1)
    (honce : attributes.sendOnceUrefs = 0) (hreceive : attributes.hasReceiveRight = false) :
    Inv (s.added attributes) := by
  refine h.added hle (.inr (.inl ?_)) ⟨?_, ?_⟩ fun _ => ⟨hreceive, honce⟩
  · rw [hsend]
    exact one_ne_zero
  · rw [hsend]
    decide
  · rw [honce]
    decide

/-- A step that leaves no port without a right keeps the invariant. -/
theorem Inv.step {strips : Prop} {s' : GuestPortSpace} (h : Inv s) (hstrips : ¬strips)
    (hstep : PortStep strips s s') : Inv s' := by
  cases hstep with
  | refl => exact h
  | change hp hname htype hcontext hreceive honce hsend hright =>
    refine h.setPort hp hname htype hcontext hreceive honce hsend fun hne => ?_
    exact (hright hne (h.righted _ _ hp hne)).resolve_left hstrips
  | remove hp hne htype hcontext => exact h.removePort hp hne htype hcontext
  | add hle hright hbound honly => exact h.added hle hright hbound honly
  | addHost hle =>
    refine { h.addedSendRight hle rfl rfl rfl with host := ?_ }
    rintro n ⟨⟩
    exact ⟨_, ports_added s _, rfl⟩
  | addThread hle =>
    refine { h.addedSendRight hle rfl rfl rfl with thread := ?_ }
    rintro n ⟨⟩
    exact ⟨_, ports_added s _, rfl⟩
  | addBootstrap hle =>
    refine { h.addedSendRight hle rfl rfl rfl with bootstrap := ?_ }
    rintro n ⟨⟩
    exact ⟨_, ports_added s _, rfl⟩
  | addClock hle clockId =>
    have hadded : Inv (s.added
        { type := .clock, context := clockId.setWidth 64, sendUrefs := 1 }) :=
      h.addedSendRight hle rfl rfl rfl
    refine { hadded with clock := fun id n hn => ?_ }
    dsimp only at hn
    rw [Function.update_apply] at hn
    split at hn
    · next hid =>
      cases hn
      exact ⟨_, ports_added s _, rfl, by rw [hid]⟩
    · exact hadded.clock id n hn

/-! ## The operations are steps -/

section

variable {strips : Prop}

/-- A new port with a receive right. -/
theorem Numbered.allocateReceiveRight (h : Numbered s) {attributes : GuestPort}
    (hbound : attributes.Bounded)
    (htype : attributes.type ∉ [.host, .thread, .bootstrap, .clock]) :
    PortStep strips s (s.allocateReceiveRight attributes).2 := by
  unfold GuestPortSpace.allocateReceiveRight
  rcases h.allocatePort_eq { attributes with hasReceiveRight := true } with ⟨-, heq⟩ | ⟨hle, heq⟩
  · rw [heq]
    exact .refl
  · rw [heq]
    exact .add hle (.inl rfl) hbound fun ht => absurd ht htype

theorem portStep_addSendRight (s : GuestPortSpace) (name : PortName) (ok : GuestPort → Bool) :
    PortStep strips s (s.addSendRight name ok machPortUrefsMaximum).2 := by
  unfold GuestPortSpace.addSendRight
  split
  · next port hp =>
    split
    · exact .refl
    · next hc =>
      simp only [Bool.or_eq_true, Bool.not_eq_true', beq_iff_eq, not_or] at hc
      exact .change hp rfl rfl rfl rfl le_rfl (fun hmax => by simp only; omega)
        fun _ _ => .inr (.inr (.inl (Nat.succ_ne_zero _)))
  · exact .refl

theorem Numbered.copyoutHostSendRight (h : Numbered s) :
    PortStep strips s (s.copyoutHostSendRight machPortUrefsMaximum).2 := by
  unfold GuestPortSpace.copyoutHostSendRight
  split
  · exact portStep_addSendRight s _ _
  · next hnone =>
    rcases h.allocatePort_eq { type := .host, sendUrefs := 1 } with ⟨-, heq⟩ | ⟨hle, heq⟩
    · rw [heq]
      dsimp only
      rw [← hnone]
      exact .refl
    · rw [heq]
      exact .addHost hle

theorem Numbered.copyoutThreadSendRight (h : Numbered s) :
    PortStep strips s (s.copyoutThreadSendRight machPortUrefsMaximum).2 := by
  unfold GuestPortSpace.copyoutThreadSendRight
  split
  · exact portStep_addSendRight s _ _
  · next hnone =>
    rcases h.allocatePort_eq { type := .thread, sendUrefs := 1 } with ⟨-, heq⟩ | ⟨hle, heq⟩
    · rw [heq]
      dsimp only
      rw [← hnone]
      exact .refl
    · rw [heq]
      exact .addThread hle

theorem Numbered.copyoutBootstrapSendRight (h : Numbered s) :
    PortStep strips s (s.copyoutBootstrapSendRight machPortUrefsMaximum).2 := by
  unfold GuestPortSpace.copyoutBootstrapSendRight
  split
  · exact portStep_addSendRight s _ _
  · next hnone =>
    rcases h.allocatePort_eq { type := .bootstrap, sendUrefs := 1 } with ⟨-, heq⟩ | ⟨hle, heq⟩
    · rw [heq]
      dsimp only
      rw [← hnone]
      exact .refl
    · rw [heq]
      exact .addBootstrap hle

theorem Numbered.copyoutClockSendRight (h : Numbered s) (clockId : BitVec 32) :
    PortStep strips s (s.copyoutClockSendRight clockId machPortUrefsMaximum).2 := by
  unfold GuestPortSpace.copyoutClockSendRight
  split
  · exact portStep_addSendRight s _ _
  · next hnone =>
    rcases h.allocatePort_eq { type := .clock, context := clockId.setWidth 64, sendUrefs := 1 }
      with ⟨-, heq⟩ | ⟨hle, heq⟩
    · rw [heq]
      dsimp only
      rw [← hnone, Function.update_eq_self]
      exact .refl
    · rw [heq]
      exact .addClock hle clockId

theorem Numbered.allocateSemaphoreSendRight (h : Numbered s) (policy value : BitVec 32) :
    PortStep strips s (s.allocateSemaphoreSendRight policy value).2 := by
  unfold GuestPortSpace.allocateSemaphoreSendRight
  rcases h.allocatePort_eq { type := .semaphore, sendUrefs := 1, context := value.setWidth 64,
                             optionFlags := policy } with ⟨-, heq⟩ | ⟨hle, heq⟩
  · rw [heq]
    exact .refl
  · rw [heq]
    exact .add hle (.inr (.inl one_ne_zero)) ⟨by simp [machPortUrefsMaximum], Nat.zero_le _⟩
      fun _ => ⟨rfl, rfl⟩

theorem portStep_deallocateUref (s : GuestPortSpace) (name : PortName) :
    PortStep strips s (s.deallocateUref name).2 := by
  unfold GuestPortSpace.deallocateUref
  split
  · exact .refl
  · split
    · exact .refl
    · next port hp =>
      split
      · exact .refl
      · next hsome =>
        dsimp only
        generalize hport : (if port.sendUrefs ≠ 0 then
            { port with sendUrefs := port.sendUrefs - 1 }
          else { port with sendOnceUrefs := port.sendOnceUrefs - 1 }) = port'
        have hsame : port'.name = port.name ∧ port'.type = port.type ∧
            port'.context = port.context ∧ port'.hasReceiveRight = port.hasReceiveRight ∧
            port'.sendOnceUrefs ≤ port.sendOnceUrefs ∧ port'.sendUrefs ≤ port.sendUrefs := by
          rw [← hport]
          split
          · exact ⟨rfl, rfl, rfl, rfl, le_rfl, Nat.sub_le _ _⟩
          · exact ⟨rfl, rfl, rfl, rfl, Nat.sub_le _ _, le_rfl⟩
        obtain ⟨h1, h2, h3, h4, h5, h6⟩ := hsame
        split
        · next hlast => exact .remove hp hlast.1 h2 h3
        · next hkeep =>
          refine .change hp h1 h2 h3 h4 h5 h6.trans fun hne _ => .inr ?_
          by_contra hright
          simp only [GuestPort.Righted, not_or, not_not] at hright
          exact hkeep ⟨hne, by simpa using hright.1, hright.2.1, hright.2.2⟩

end

/-- Rolling back a new port gives the space back. -/
theorem Numbered.rollback_added (h : Numbered s) (hle : s.nextSyntheticName ≤ lastName)
    {attributes : GuestPort} (htype : attributes.type ≠ .clock) :
    (s.added attributes).rollbackLastAllocation s.nextSyntheticName = s := by
  have hfree := h.next_free
  have hforget {remembered : Option PortName}
      (hr : ∀ n, remembered = some n → n ≠ 0 ∧ n < s.nextSyntheticName) :
      forget remembered s.nextSyntheticName = remembered := by
    unfold forget
    refine if_neg fun he => ?_
    exact absurd (hr _ he).2 (by simp)
  have hself : s.nextSyntheticName ≠ taskSelfName := fun he => by
    have := h.task
    rw [he] at this
    exact absurd this (by simp)
  unfold GuestPortSpace.rollbackLastAllocation
  rw [ports_added]
  simp only [if_neg hself, GuestPortSpace.removePort, htype, if_false, GuestPortSpace.added,
    GuestPortSpace.setPort, hle, and_self, if_true]
  rw [hforget h.host, hforget h.thread, hforget h.bootstrap, Function.update_idem, ← hfree,
    Function.update_eq_self]

/-! ## Refused rights -/

/-- What is refused a name changes nothing. -/
theorem Numbered.allocatePort_refused (h : Numbered s) {attributes : GuestPort}
    (hnone : (s.allocatePort attributes).1 = none) : s.allocatePort attributes = (none, s) := by
  rcases h.allocatePort_eq attributes with ⟨-, heq⟩ | ⟨-, heq⟩
  · exact heq
  · rw [heq] at hnone
    cases hnone

theorem addSendRight_refused {name : PortName} {ok : GuestPort → Bool} {maximumUrefs : Nat}
    (hnone : (s.addSendRight name ok maximumUrefs).1 = none) :
    (s.addSendRight name ok maximumUrefs).2 = s := by
  unfold GuestPortSpace.addSendRight at hnone ⊢
  split at hnone
  · next hp =>
    split at hnone
    · next hc =>
      simp only [hc, if_true]
    · cases hnone
  · next hp => simp only

theorem Numbered.copyoutHostSendRight_refused (h : Numbered s) {maximumUrefs : Nat}
    (hnone : (s.copyoutHostSendRight maximumUrefs).1 = none) :
    (s.copyoutHostSendRight maximumUrefs).2 = s := by
  unfold GuestPortSpace.copyoutHostSendRight at hnone ⊢
  split at hnone
  · exact addSendRight_refused hnone
  · next hn =>
    simp only [h.allocatePort_refused hnone]
    rw [← hn]

theorem Numbered.copyoutThreadSendRight_refused (h : Numbered s) {maximumUrefs : Nat}
    (hnone : (s.copyoutThreadSendRight maximumUrefs).1 = none) :
    (s.copyoutThreadSendRight maximumUrefs).2 = s := by
  unfold GuestPortSpace.copyoutThreadSendRight at hnone ⊢
  split at hnone
  · exact addSendRight_refused hnone
  · next hn =>
    simp only [h.allocatePort_refused hnone]
    rw [← hn]

theorem Numbered.copyoutBootstrapSendRight_refused (h : Numbered s) {maximumUrefs : Nat}
    (hnone : (s.copyoutBootstrapSendRight maximumUrefs).1 = none) :
    (s.copyoutBootstrapSendRight maximumUrefs).2 = s := by
  unfold GuestPortSpace.copyoutBootstrapSendRight at hnone ⊢
  split at hnone
  · exact addSendRight_refused hnone
  · next hn =>
    simp only [h.allocatePort_refused hnone]
    rw [← hn]

theorem Numbered.copyoutClockSendRight_refused (h : Numbered s) {clockId : BitVec 32}
    {maximumUrefs : Nat} (hnone : (s.copyoutClockSendRight clockId maximumUrefs).1 = none) :
    (s.copyoutClockSendRight clockId maximumUrefs).2 = s := by
  unfold GuestPortSpace.copyoutClockSendRight at hnone ⊢
  split at hnone
  · exact addSendRight_refused hnone
  · next hn =>
    simp only [h.allocatePort_refused hnone]
    rw [← hn, Function.update_eq_self]

theorem deallocateUref_refused {name : PortName} (h : (s.deallocateUref name).1 ≠ .success) :
    (s.deallocateUref name).2 = s := by
  revert h
  unfold GuestPortSpace.deallocateUref
  split
  · exact fun _ => rfl
  · split
    · exact fun _ => rfl
    · split
      · exact fun _ => rfl
      · dsimp only
        split <;> split <;> exact fun h => absurd rfl h

theorem addSendRight_name {name name' : PortName} {ok : GuestPort → Bool} {maximumUrefs : Nat}
    (h : (s.addSendRight name ok maximumUrefs).1 = some name') : name = name' := by
  unfold GuestPortSpace.addSendRight at h
  split at h
  · split at h
    · cases h
    · exact Option.some.inj h
  · cases h

theorem Numbered.allocatePort_name (h : Numbered s) {attributes : GuestPort} {name : PortName}
    (hname : (s.allocatePort attributes).1 = some name) : name = s.nextSyntheticName := by
  rcases h.allocatePort_eq attributes with ⟨-, heq⟩ | ⟨-, heq⟩
  · rw [heq] at hname
    cases hname
  · rw [heq] at hname
    exact (Option.some.inj hname).symm

/-- A name that is given out is not null. -/
theorem Numbered.copyoutHostSendRight_ne_zero (h : Numbered s) {maximumUrefs : Nat}
    {name : PortName} (hname : (s.copyoutHostSendRight maximumUrefs).1 = some name) :
    name ≠ 0 := by
  unfold GuestPortSpace.copyoutHostSendRight at hname
  split at hname
  · next n hn =>
    rw [← addSendRight_name hname]
    exact (h.host n hn).1
  · rw [h.allocatePort_name hname]
    exact h.next_ne_zero

theorem Numbered.copyoutThreadSendRight_ne_zero (h : Numbered s) {maximumUrefs : Nat}
    {name : PortName} (hname : (s.copyoutThreadSendRight maximumUrefs).1 = some name) :
    name ≠ 0 := by
  unfold GuestPortSpace.copyoutThreadSendRight at hname
  split at hname
  · next n hn =>
    rw [← addSendRight_name hname]
    exact (h.thread n hn).1
  · rw [h.allocatePort_name hname]
    exact h.next_ne_zero

end GuestPortSpace

end Rosa.Darwin
