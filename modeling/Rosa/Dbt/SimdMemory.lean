import Rosa.Dbt.SimdHelpers
import Rosa.Guest.ReadableBytes

/-!
# Packed helpers with a memory operand

The helpers of `dbt/RuntimeHelpers.cpp` that read their second operand from guest memory. They
repeat the lane arithmetic of the register helpers on the bytes of one read, and a read that
throws is reported as a fault before the register is written.
-/

namespace Rosa

open AddressSpace

/-! ## The helpers -/

/-- The operations with a memory operand. -/
inductive MemoryOperation
  | pcmpeqb | pcmpeqq | paddd | pshufb | unpcklps | unpckhps | haddpd
  | addpd | subpd | mulpd | divpd | sqrtpd | pxor | pand
  deriving DecidableEq, Repr

/-- The register helper of the operation, if there is one. -/
def MemoryOperation.packed : MemoryOperation → Option PackedOperation
  | pcmpeqb => some .pcmpeqb
  | pcmpeqq => some .pcmpeqq
  | paddd => some .paddd
  | pshufb => some .pshufb
  | unpcklps => some .unpcklps
  | unpckhps => some .unpckhps
  | haddpd => some .haddpd
  | addpd => some .addpd
  | subpd => some .subpd
  | mulpd => some .mulpd
  | divpd => some .divpd
  | sqrtpd => some .sqrtpd
  | pxor => none
  | pand => none

/-- `sumLane` of `addGuestMemoryXmm128`. -/
def sumLane (destinationLane sourceLane : BitVec 64) : BitVec 64 :=
  let low := destinationLane.setWidth 32 + sourceLane.setWidth 32
  let high := (destinationLane >>> 32).setWidth 32 + (sourceLane >>> 32).setWidth 32
  low.setWidth 64 ||| high.setWidth 64 <<< 32

/-- What a helper makes of the register and the bytes it has read. -/
def memoryResult (host : HostDouble) (original : XmmValue) (bytes : List Byte) :
    MemoryOperation → XmmValue
  | .pcmpeqb =>
    collect 8 8 (fun index => if laneAt 8 8 original index = bytes.getD index 0 then 0xFF else 0) 16
  | .pcmpeqq =>
    let sourceLow := ofLittleEndian 64 8 bytes
    let sourceHigh := ofLittleEndian 64 8 (bytes.drop 8)
    (if original.1 = sourceLow then BitVec.allOnes 64 else 0,
      if original.2 = sourceHigh then BitVec.allOnes 64 else 0)
  | .paddd =>
    (sumLane original.1 (ofLittleEndian 64 8 bytes),
      sumLane original.2 (ofLittleEndian 64 8 (bytes.drop 8)))
  | .pshufb =>
    collect 8 8
      (fun index =>
        let mask := bytes.getD index 0
        if mask &&& 0x80 ≠ 0 then 0 else laneAt 8 8 original (mask &&& 0x0F).toNat) 16
  | .unpcklps =>
    let sourceLow := ofLittleEndian 64 8 bytes
    (dwordPair (original.1.setWidth 32) (sourceLow.setWidth 32),
      dwordPair ((original.1 >>> 32).setWidth 32) ((sourceLow >>> 32).setWidth 32))
  | .unpckhps =>
    let sourceHigh := ofLittleEndian 64 8 (bytes.drop 8)
    (dwordPair (original.2.setWidth 32) (sourceHigh.setWidth 32),
      dwordPair ((original.2 >>> 32).setWidth 32) ((sourceHigh >>> 32).setWidth 32))
  | .haddpd =>
    (host.add original.1 original.2,
      host.add (ofLittleEndian 64 8 bytes) (ofLittleEndian 64 8 (bytes.drop 8)))
  | .addpd => arithmeticDouble host 0 original (xmmOfBytes bytes)
  | .subpd => arithmeticDouble host 1 original (xmmOfBytes bytes)
  | .mulpd => arithmeticDouble host 2 original (xmmOfBytes bytes)
  | .divpd => arithmeticDouble host 3 original (xmmOfBytes bytes)
  | .sqrtpd => arithmeticDouble host 4 original (xmmOfBytes bytes)
  | .pxor =>
    (original.1 ^^^ ofLittleEndian 64 8 bytes, original.2 ^^^ ofLittleEndian 64 8 (bytes.drop 8))
  | .pand =>
    (original.1 &&& ofLittleEndian 64 8 bytes, original.2 &&& ofLittleEndian 64 8 (bytes.drop 8))

/-- `faultAddress` and `faultSize` of the context. -/
structure GuestFault where
  address : BitVec 64
  size : Nat
  deriving DecidableEq, Repr

/-- A helper with a memory operand : the fault, if it returns no state, and what it leaves. -/
def memoryHelper (host : HostDouble) (op : MemoryOperation) (g : GuestState) (s : AddressSpace)
    (address registerIndex : BitVec 64) : Option GuestFault × GuestState × AddressSpace :=
  if h : registerIndex.toNat < 16 then
    match readInto address.toNat 16 s with
    | (.ok bytes, s') =>
      (none, g.setXmm ⟨_, h⟩ (memoryResult host (g.xmm ⟨_, h⟩) bytes op), s')
    | (.error _, s') => (some ⟨address, 16⟩, g, s')
  else (some ⟨address, 16⟩, g, s)

/-! ## Against the register helpers -/

theorem collect_congr {w count : Nat} {f g : Nat → BitVec w} :
    ∀ {n : Nat}, (∀ i < n, f i = g i) → collect w count f n = collect w count g n
  | 0, _ => rfl
  | n + 1, h => by
    rw [collect, collect, collect_congr fun i hi => h i (by omega), h n (by omega)]

theorem laneAt_xmmOfBytes (bytes : List Byte) {i : Nat} (hi : i < 16) :
    laneAt 8 8 (xmmOfBytes bytes) i = bytes.getD i 0 := by
  rw [laneAt_eq (by decide) (by omega), lane_xmmOfBytes bytes hi]

theorem compareEqualBytes_xmmOfBytes (original : XmmValue) (bytes : List Byte) :
    collect 8 8 (fun index => if laneAt 8 8 original index = bytes.getD index 0 then 0xFF else 0)
      16 = compareEqualBytes original (xmmOfBytes bytes) := by
  unfold compareEqualBytes
  exact collect_congr fun i hi => by rw [laneAt_xmmOfBytes bytes hi]

theorem shuffleBytes_xmmOfBytes (original : XmmValue) (bytes : List Byte) :
    collect 8 8
      (fun index =>
        let mask := bytes.getD index 0
        if mask &&& 0x80 ≠ 0 then 0 else laneAt 8 8 original (mask &&& 0x0F).toNat) 16 =
      shuffleBytes original (xmmOfBytes bytes) := by
  unfold shuffleBytes
  exact collect_congr fun i hi => by rw [laneAt_xmmOfBytes bytes hi]

theorem sumLane_eq (a b : BitVec 64) :
    sumLane a b = dwordPair (a.setWidth 32 + b.setWidth 32)
      ((a >>> 32).setWidth 32 + (b >>> 32).setWidth 32) := rfl

/-- The two halves of `addGuestMemoryXmm128` are the loop of `addXmmDwords128`. -/
theorem sumLane_addDwords (host : HostDouble) (destination source : XmmValue) :
    (sumLane destination.1 source.1, sumLane destination.2 source.2) =
      addDwords destination source := by
  refine joined_injective ?_
  obtain ⟨d0, d1, d2, d3⟩ := dwords_of_halves destination
  obtain ⟨s0, s1, s2, s3⟩ := dwords_of_halves source
  rw [sumLane_eq, sumLane_eq, d0, d1, d2, d3, s0, s1, s2, s3, joined_addDwords host]
  unfold packedValue
  exact joined_dwordPair rfl rfl rfl rfl

/-- A memory helper computes what the register helper of its operation computes. -/
theorem memoryResult_eq (host : HostDouble) (original : XmmValue) (bytes : List Byte)
    {op : MemoryOperation} {p : PackedOperation} (h : op.packed = some p) :
    memoryResult host original bytes op = packedResult host original (xmmOfBytes bytes) p := by
  cases op <;> simp only [MemoryOperation.packed, Option.some.injEq, reduceCtorEq] at h <;>
    subst h <;> simp only [memoryResult, packedResult]
  case pcmpeqb => exact compareEqualBytes_xmmOfBytes original bytes
  case pshufb => exact shuffleBytes_xmmOfBytes original bytes
  case paddd => exact sumLane_addDwords host original (xmmOfBytes bytes)
  case pcmpeqq => rfl
  case unpcklps => rfl
  case unpckhps => rfl
  case haddpd => rfl

/-- The instruction with a memory operand on 128 bits. -/
def memoryValue (host : HostDouble) (destination source : BitVec 128) (op : MemoryOperation) :
    BitVec 128 :=
  match op.packed with
  | some p => packedValue host destination source p
  | none => if op = .pxor then destination ^^^ source else destination &&& source

theorem joined_xor (v u : XmmValue) :
    joined v ^^^ joined u = joined (v.1 ^^^ u.1, v.2 ^^^ u.2) := by
  refine BitVec.eq_of_getLsbD_eq fun k _ => ?_
  simp only [BitVec.getLsbD_xor, getLsbD_joined]
  split <;> rfl

theorem joined_memoryResult (host : HostDouble) (original : XmmValue) (bytes : List Byte)
    (op : MemoryOperation) : joined (memoryResult host original bytes op) =
      memoryValue host (joined original) (joined (xmmOfBytes bytes)) op := by
  unfold memoryValue
  split
  · next p hp => rw [memoryResult_eq host original bytes hp, joined_packedResult]
  · next hp =>
    cases op <;> simp only [MemoryOperation.packed, reduceCtorEq] at hp
    case pxor =>
      rw [if_pos rfl, joined_xor]
      simp only [memoryResult, xmmOfBytes]
    case pand =>
      rw [if_neg (by decide), joined_and]
      simp only [memoryResult, xmmOfBytes]

/-! ## The helpers on the guest state -/

section

variable (host : HostDouble) (op : MemoryOperation) (g : GuestState) {s : AddressSpace}
variable (address : BitVec 64) (r : XmmRegister)

theorem memoryHelper_index (s : AddressSpace) :
    memoryHelper host op g s address (xmmIndex r) =
      match readInto address.toNat 16 s with
      | (.ok bytes, s') => (none, g.setXmm r (memoryResult host (g.xmm r) bytes op), s')
      | (.error _, s') => (some ⟨address, 16⟩, g, s') := by
  have hlt : (xmmIndex r).toNat < 16 := by rw [toNat_xmmIndex]; exact r.isLt
  have hr : (⟨(xmmIndex r).toNat, hlt⟩ : XmmRegister) = r := Fin.ext (toNat_xmmIndex r)
  rw [memoryHelper, dif_pos hlt, hr]

theorem memoryHelper_ok {bytes : List Byte} (h : (readInto address.toNat 16 s).1 = .ok bytes) :
    memoryHelper host op g s address (xmmIndex r) =
      (none, g.setXmm r (halves (memoryValue host (joined (g.xmm r)) (joined (xmmOfBytes bytes)) op)),
        (readInto address.toNat 16 s).2) := by
  rw [memoryHelper_index]
  rcases hread : readInto address.toNat 16 s with ⟨result, s'⟩
  rw [hread] at h
  obtain rfl : result = .ok bytes := h
  rw [← joined_memoryResult, halves_joined]

theorem memoryHelper_error (h : ¬∃ bytes, (readInto address.toNat 16 s).1 = .ok bytes) :
    memoryHelper host op g s address (xmmIndex r) =
      (some ⟨address, 16⟩, g, (readInto address.toNat 16 s).2) := by
  rw [memoryHelper_index]
  rcases hread : readInto address.toNat 16 s with ⟨message | bytes, s'⟩
  · rfl
  · exact absurd ⟨bytes, by rw [hread]⟩ h

end

/-- What the helper with a memory operand does on a space : the instruction on the bytes that
memory shows if all of them can be read, else a fault that leaves the registers. -/
structure ComputesFromMemory (host : HostDouble) (op : MemoryOperation) (g : GuestState)
    (s : AddressSpace) (memory : Nat → Byte) (address : BitVec 64) (r : XmmRegister) : Prop where
  fault : (memoryHelper host op g s address (xmmIndex r)).1 ≠ none ↔
    ∃ k < 16, ¬s.CanRead (address.toNat + k)
  unchanged : (memoryHelper host op g s address (xmmIndex r)).1 ≠ none →
    (memoryHelper host op g s address (xmmIndex r)).2.1 = g
  value : (memoryHelper host op g s address (xmmIndex r)).1 = none →
    (memoryHelper host op g s address (xmmIndex r)).2.1 = g.setXmm r (halves
      (memoryValue host (joined (g.xmm r))
        (joined (xmmOfBytes (bytesAt memory address.toNat 16))) op))

theorem computesFromMemory (host : HostDouble) (op : MemoryOperation) (g : GuestState)
    {s : AddressSpace} (hs : Regular s) {memory : Nat → Byte} (hd : Depicts memory s.settled)
    (address : BitVec 64) (r : XmmRegister) :
    ComputesFromMemory host op g s memory address r := by
  have hreturns := readInto_returns_iff hs address.toNat 16
  by_cases hread : ∃ bytes, (readInto address.toNat 16 s).1 = .ok bytes
  · have hall := hreturns.mp hread
    obtain ⟨bytes, hok⟩ := hread
    have hhelper := memoryHelper_ok host op g address r hok
    have hbytes := readInto_bytes hs hd hok
    refine ⟨?_, ?_, ?_⟩
    · rw [hhelper]
      exact ⟨fun h => absurd rfl h, fun ⟨k, hk, hno⟩ => absurd (hall k hk) hno⟩
    · rw [hhelper]
      exact fun h => absurd rfl h
    · rw [hhelper, hbytes]
      exact fun _ => rfl
  · have hhelper := memoryHelper_error host op g address r hread
    have hsome : ∃ k < 16, ¬s.CanRead (address.toNat + k) := by
      have := mt hreturns.mpr hread
      push Not at this
      exact this
    refine ⟨?_, ?_, ?_⟩
    · rw [hhelper]
      exact ⟨fun _ => hsome, fun _ => Option.some_ne_none _⟩
    · rw [hhelper]
      exact fun _ => rfl
    · rw [hhelper]
      exact fun h => absurd h (Option.some_ne_none _)

/-! ## All helpers -/

/-- Every helper computes its instruction, and changes one register or the flags only. The two
scalar conversions clear the high half of their destination. -/
structure HelpersCompute (host : HostDouble) : Prop where
  packed : ∀ (op : PackedOperation) (g : GuestState) (d s : XmmRegister),
    packedHelper host op g (xmmIndex d) (xmmIndex s) =
      g.setXmm d (halves (packedValue host (joined (g.xmm d)) (joined (g.xmm s)) op))
  shiftLeft : ∀ (g : GuestState) (d : XmmRegister) (count : BitVec 64),
    shiftLeftXmmDwords128 g (xmmIndex d) count = g.setXmm d (halves (ofLanes 128 32 fun i =>
      if count.toNat < 32 then lane 32 i (joined (g.xmm d)) <<< count.toNat else 0))
  test : ∀ (g : GuestState) (d s : XmmRegister),
    testXmmBits128 g (xmmIndex d) (xmmIndex s) =
      { g with rflags := ptestFlags g.rflags (joined (g.xmm d)) (joined (g.xmm s)) }
  byteMask : ∀ (g : GuestState) (r : Register) (s : XmmRegister),
    moveXmmByteMask32 g (BitVec.ofNat 64 r.index) (xmmIndex s) =
      g.setReg r (byteSigns (joined (g.xmm s)))
  scalar : ∀ (op : ScalarOperation) (g : GuestState) (d : XmmRegister) (source : BitVec 64),
    scalarDoubleXmm host g (xmmIndex d) source op.number =
      g.setXmm d (scalarValue host (g.xmm d).1 source op, (g.xmm d).2)
  convertInt32 : ∀ (g : GuestState) (d : XmmRegister) (value : BitVec 64),
    convertInt32ToDoubleXmm host g (xmmIndex d) value =
      g.setXmm d (host.ofInt32 (value.setWidth 32), 0)
  convertInt64 : ∀ (g : GuestState) (d : XmmRegister) (value : BitVec 64),
    convertInt64ToDoubleXmm host g (xmmIndex d) value = g.setXmm d (host.ofInt64 value, 0)
  convertFloat : ∀ (g : GuestState) (d : XmmRegister) (bits : BitVec 64),
    convertFloatToDoubleXmm host g (xmmIndex d) bits =
      g.setXmm d (host.ofFloat (bits.setWidth 32), 0)
  convertInt32x2 : ∀ (g : GuestState) (d : XmmRegister) (bits : BitVec 64),
    convertInt32x2ToDoubleXmm host g (xmmIndex d) bits = g.setXmm d (halves (ofLanes 128 64
      fun i => if i < 2 then host.ofInt32 (lane 32 i bits) else 0))
  reads : ∀ (op : MemoryOperation) (g : GuestState) (s : AddressSpace) (address : BitVec 64)
    (r : XmmRegister), memoryHelper host op g s address (xmmIndex r) =
      match readInto address.toNat 16 s with
      | (.ok bytes, s') => (none, g.setXmm r (halves (memoryValue host (joined (g.xmm r))
          (joined (xmmOfBytes bytes)) op)), s')
      | (.error _, s') => (some ⟨address, 16⟩, g, s')
  memory : ∀ (op : MemoryOperation) (g : GuestState) (calls : List Call),
    Along (fun s call => call.StaysRegular s) {} calls →
      ∀ (memory : Nat → Byte), Depicts memory (afterAll {} calls).settled →
        ∀ (address : BitVec 64) (r : XmmRegister),
          ComputesFromMemory host op g (afterAll {} calls) memory address r

theorem helpersCompute (host : HostDouble) : HelpersCompute host where
  packed := packedHelper_eq host
  shiftLeft := shiftLeftXmmDwords128_eq
  test := testXmmBits128_eq
  byteMask := moveXmmByteMask32_eq
  scalar op g d source := by
    rw [scalarDoubleXmm, updateXmm_index, scalarDouble_eq]
  convertInt32 g d value := by rw [convertInt32ToDoubleXmm, updateXmm_index]
  convertInt64 g d value := by rw [convertInt64ToDoubleXmm, updateXmm_index]
  convertFloat g d bits := by rw [convertFloatToDoubleXmm, updateXmm_index]
  convertInt32x2 g d bits := by
    rw [convertInt32x2ToDoubleXmm, updateXmm_index,
      ← joined_qwords (f := fun i => if i < 2 then host.ofInt32 (lane 32 i bits) else 0) rfl rfl,
      halves_joined]
    rfl
  reads op g s address r := by
    rw [memoryHelper_index]
    rcases readInto address.toNat 16 s with ⟨message | bytes, s'⟩
    · rfl
    · simp only [← joined_memoryResult, halves_joined]
  memory op g _ hcalls _ hd address r :=
    computesFromMemory host op g (regular_afterAll hcalls) hd address r

/-- A host whose doubles are unsigned numbers. -/
def unsignedHost : HostDouble where
  add a b := a + b
  sub a b := a - b
  mul a b := a * b
  div a b := a / b
  sqrt a := a
  isnan _ := false
  eq a b := a == b
  lt a b := a.ult b
  ofInt32 v := v.setWidth 64
  ofInt64 v := v
  ofFloat v := v.setWidth 64
  lt_of_isnan _ _ h := by simp at h
  lt_of_eq a b h := by
    obtain rfl : a = b := by simpa using h
    simp [BitVec.ult]
  lt_total a b _ _ h := by
    have hne : a ≠ b := by simpa using h
    have hnat : a.toNat ≠ b.toNat := fun e => hne (BitVec.eq_of_toNat_eq e)
    simp only [BitVec.ult]
    by_cases hlt : a.toNat < b.toNat
    · simp [hlt, show ¬b.toNat < a.toNat by omega]
    · simp [hlt, show b.toNat < a.toNat by omega]

/-- A register whose high half is not zero loses it. -/
theorem not_keepsHigh_convertInt32 :
    ∃ (host : HostDouble) (g : GuestState) (d : XmmRegister) (value : BitVec 64),
      ((convertInt32ToDoubleXmm host g (xmmIndex d) value).xmm d).2 ≠ (g.xmm d).2 := by
  refine ⟨unsignedHost, { regs := fun _ => 0, rip := 0, rflags := 2, xmm := fun _ => (0, 1)
                          ymmUpper := fun _ => (0, 0), gsBase := 0 }, 0, 0, ?_⟩
  rw [convertInt32ToDoubleXmm, updateXmm_index]
  decide

end Rosa
