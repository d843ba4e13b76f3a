import Mathlib.Data.List.GetD
import Rosa.IR.Semantics
import Rosa.Logic.Codec
import Rosa.Logic.Lanes

/-!
# The packed helpers

The helpers of `dbt/RuntimeHelpers.cpp` that compute on XMM registers. A register is two
halves of 64 bits, and each helper goes over its lanes with shifts, masks and index
arithmetic of its own. Beside them stands what the instruction is to compute, lane by lane on
128 bits; floating point is a host that the helpers call and that nothing is known of but how
its comparisons order numbers.

Two conversions differ from the legacy SSE form : `CVTSI2SD` and `CVTSS2SD` clear the high half
of their destination, and the tests expect it.
-/

namespace Rosa

/-! ## The host's floating point -/

/-- Doubles as their bits, with the operations of the host. Comparisons with a number that is
not a number are false, and of two numbers that are not equal one is the smaller. -/
structure HostDouble where
  add : BitVec 64 → BitVec 64 → BitVec 64
  sub : BitVec 64 → BitVec 64 → BitVec 64
  mul : BitVec 64 → BitVec 64 → BitVec 64
  div : BitVec 64 → BitVec 64 → BitVec 64
  sqrt : BitVec 64 → BitVec 64
  isnan : BitVec 64 → Bool
  eq : BitVec 64 → BitVec 64 → Bool
  lt : BitVec 64 → BitVec 64 → Bool
  ofInt32 : BitVec 32 → BitVec 64
  ofInt64 : BitVec 64 → BitVec 64
  ofFloat : BitVec 32 → BitVec 64
  lt_of_isnan : ∀ a b, (isnan a || isnan b) = true → lt a b = false
  lt_of_eq : ∀ a b, eq a b = true → lt a b = false ∧ lt b a = false
  lt_total : ∀ a b, isnan a = false → isnan b = false → eq a b = false → lt a b = !lt b a

/-! ## Register helpers -/

/-- A helper of one register : an index past the last register changes nothing. -/
def updateXmm (g : GuestState) (destinationIndex : BitVec 64) (f : XmmValue → XmmValue) :
    GuestState :=
  if h : destinationIndex.toNat < 16 then
    { g with xmm := Function.update g.xmm ⟨_, h⟩ (f (g.xmm ⟨_, h⟩)) }
  else g

/-- A helper of two registers. Both are read before the destination is written. -/
def combineXmm (g : GuestState) (destinationIndex sourceIndex : BitVec 64)
    (f : XmmValue → XmmValue → XmmValue) : GuestState :=
  if h : destinationIndex.toNat < 16 ∧ sourceIndex.toNat < 16 then
    { g with xmm := Function.update g.xmm ⟨_, h.1⟩ (f (g.xmm ⟨_, h.1⟩) (g.xmm ⟨_, h.2⟩)) }
  else g

/-- The lane that a loop reads : `count` lanes of width `w` in each half. -/
def laneAt (w count : Nat) (value : XmmValue) (index : Nat) : BitVec w :=
  (halfOf count index value >>> (index % count * w)).setWidth w

/-- The lanes of `addXmmWords128`. -/
def addWords (destination source : XmmValue) : XmmValue :=
  collect 16 4 (fun index => laneAt 16 4 destination index + laneAt 16 4 source index) 8

/-- The lanes of `addXmmDwords128`. -/
def addDwords (destination source : XmmValue) : XmmValue :=
  collect 32 2 (fun index => laneAt 32 2 destination index + laneAt 32 2 source index) 4

/-- The lanes of `compareEqualXmmBytes128`. -/
def compareEqualBytes (destination source : XmmValue) : XmmValue :=
  collect 8 8
    (fun index => if laneAt 8 8 destination index = laneAt 8 8 source index then 0xFF else 0) 16

/-- The lanes of `compareEqualXmmDwords128`. -/
def compareEqualDwords (destination source : XmmValue) : XmmValue :=
  collect 32 2
    (fun index =>
      if laneAt 32 2 destination index = laneAt 32 2 source index then BitVec.allOnes 32 else 0) 4

/-- The lanes of `compareEqualXmmQwords128`. -/
def compareEqualQwords (destination source : XmmValue) : XmmValue :=
  (if destination.1 = source.1 then BitVec.allOnes 64 else 0,
    if destination.2 = source.2 then BitVec.allOnes 64 else 0)

/-- The lanes of `shiftLeftXmmDwords128`. -/
def shiftLeftDwords (count : BitVec 64) (source : XmmValue) : XmmValue :=
  if count.toNat < 32 then
    collect 32 2
      (fun index => ((laneAt 32 2 source index).setWidth 64 <<< count.toNat).setWidth 32) 4
  else (0, 0)

/-- Two dwords of a half. -/
def dwordPair (low high : BitVec 32) : BitVec 64 := low.setWidth 64 ||| high.setWidth 64 <<< 32

/-- The sums of `horizontalAddXmmDwords128`. -/
def horizontalAddDwords (destination source : XmmValue) : XmmValue :=
  (dwordPair (laneAt 32 2 destination 0 + laneAt 32 2 destination 1)
      (laneAt 32 2 destination 2 + laneAt 32 2 destination 3),
    dwordPair (laneAt 32 2 source 0 + laneAt 32 2 source 1)
      (laneAt 32 2 source 2 + laneAt 32 2 source 3))

/-- `andNotXmm128`. -/
def andNot (destination source : XmmValue) : XmmValue :=
  (~~~destination.1 &&& source.1, ~~~destination.2 &&& source.2)

/-- The dwords of `shuffleXmmDwords`. -/
def shuffleDwords (control : BitVec 64) (source : XmmValue) : XmmValue :=
  let sourceDwords : Nat → BitVec 32 := fun index =>
    [source.1.setWidth 32, (source.1 >>> 32).setWidth 32, source.2.setWidth 32,
      (source.2 >>> 32).setWidth 32].getD index 0
  let result : Nat → BitVec 32 := fun index =>
    sourceDwords ((control >>> (index * 2)) &&& 3).toNat
  (dwordPair (result 0) (result 1), dwordPair (result 2) (result 3))

/-- The bytes of `shuffleXmmBytes`. -/
def shuffleBytes (input control : XmmValue) : XmmValue :=
  collect 8 8
    (fun index =>
      let mask := laneAt 8 8 control index
      if mask &&& 0x80 ≠ 0 then 0 else laneAt 8 8 input (mask &&& 0x0F).toNat) 16

/-- The bytes of an `XmmValue` in memory. -/
def bytesOfXmm (value : XmmValue) : List Byte := littleEndian 8 value.1 ++ littleEndian 8 value.2

/-- The `XmmValue` that bytes are copied to. -/
def xmmOfBytes (bytes : List Byte) : XmmValue :=
  (ofLittleEndian 64 8 bytes, ofLittleEndian 64 8 (bytes.drop 8))

/-- The bytes of `alignRightXmmBytes`. -/
def alignRightBytes (count : BitVec 64) (destination source : XmmValue) : XmmValue :=
  let concatenated := bytesOfXmm source ++ bytesOfXmm destination
  let available := if count.toNat < 32 then min 16 (32 - count.toNat) else 0
  xmmOfBytes ((concatenated.drop count.toNat).take available ++
    List.replicate (16 - available) 0)

/-- One turn of `blendXmmWords`. -/
def blendWord (source result : BitVec 64) (shift : Nat) : BitVec 64 :=
  (result &&& ~~~((0xFFFF : BitVec 64) <<< shift)) |||
    (((source >>> shift) &&& (0xFFFF : BitVec 64)) <<< shift)

/-- The first turns of `blendXmmWords`. -/
def blendWords (mask : BitVec 64) (destination source : XmmValue) : Nat → XmmValue
  | 0 => destination
  | index + 1 =>
    let result := blendWords mask destination source index
    if (mask >>> index) &&& 1 = 0 then result
    else
      if index < 4 then (blendWord source.1 result.1 (index % 4 * 16), result.2)
      else (result.1, blendWord source.2 result.2 (index % 4 * 16))

/-- The first turns of `unpackLowXmmWords` : two words of the result each. -/
def unpackLowWords (destination source : XmmValue) : Nat → XmmValue
  | 0 => (0, 0)
  | index + 1 =>
    let result := unpackLowWords destination source index
    let destinationWord := (destination.1 >>> (index * 16)) &&& 0xFFFF
    let sourceWord := (source.1 >>> (index * 16)) &&& 0xFFFF
    let outputShift := index * 2 % 4 * 16
    if index * 2 < 4 then
      (result.1 ||| destinationWord <<< outputShift ||| sourceWord <<< (outputShift + 16), result.2)
    else
      (result.1, result.2 ||| destinationWord <<< outputShift ||| sourceWord <<< (outputShift + 16))

/-- The dwords of `unpackLowPackedSingleXmm`. -/
def unpackLowSingle (destination source : XmmValue) : XmmValue :=
  (dwordPair (destination.1.setWidth 32) (source.1.setWidth 32),
    dwordPair ((destination.1 >>> 32).setWidth 32) ((source.1 >>> 32).setWidth 32))

/-- The dwords of `unpackHighPackedSingleXmm`. -/
def unpackHighSingle (destination source : XmmValue) : XmmValue :=
  (dwordPair (destination.2.setWidth 32) (source.2.setWidth 32),
    dwordPair ((destination.2 >>> 32).setWidth 32) ((source.2 >>> 32).setWidth 32))

/-- The sums of `horizontalAddPackedDoubleXmm`. -/
def horizontalAddDouble (host : HostDouble) (destination source : XmmValue) : XmmValue :=
  (host.add destination.1 destination.2, host.add source.1 source.2)

/-- The lane of `arithmeticPackedDoubleXmm`, by the number of the operation. -/
def arithmeticLane (host : HostDouble) (operation destination source : BitVec 64) : BitVec 64 :=
  if operation = 0 then host.add destination source
  else if operation = 1 then host.sub destination source
  else if operation = 2 then host.mul destination source
  else if operation = 3 then host.div destination source
  else host.sqrt source

/-- The lanes of `arithmeticPackedDoubleXmm`. -/
def arithmeticDouble (host : HostDouble) (operation : BitVec 64) (destination source : XmmValue) :
    XmmValue :=
  (arithmeticLane host operation destination.1 source.1,
    arithmeticLane host operation destination.2 source.2)

/-- `std::min` and `std::max`. -/
def stdMin (host : HostDouble) (a b : BitVec 64) : BitVec 64 := if host.lt b a then b else a

def stdMax (host : HostDouble) (a b : BitVec 64) : BitVec 64 := if host.lt a b then b else a

/-- The result of `scalarDoubleXmm`. -/
def scalarDouble (host : HostDouble) (operation destination source : BitVec 64) : BitVec 64 :=
  if operation = 0 then host.add destination source
  else if operation = 1 then host.sub destination source
  else if operation = 2 then host.mul destination source
  else if operation = 3 then host.div destination source
  else if operation = 4 then host.sqrt source
  else if operation = 5 then
    if host.isnan destination || host.isnan source || host.eq destination source then source
    else stdMin host destination source
  else
    if host.isnan destination || host.isnan source || host.eq destination source then source
    else stdMax host destination source

/-- `scalarDoubleXmm`. -/
def scalarDoubleXmm (host : HostDouble) (g : GuestState)
    (destinationIndex sourceBits operation : BitVec 64) : GuestState :=
  updateXmm g destinationIndex fun value =>
    (scalarDouble host operation value.1 sourceBits, value.2)

/-- `convertInt32ToDoubleXmm`. -/
def convertInt32ToDoubleXmm (host : HostDouble) (g : GuestState)
    (destinationIndex intValue : BitVec 64) : GuestState :=
  updateXmm g destinationIndex fun _ => (host.ofInt32 (intValue.setWidth 32), 0)

/-- `convertInt64ToDoubleXmm`. -/
def convertInt64ToDoubleXmm (host : HostDouble) (g : GuestState)
    (destinationIndex intValue : BitVec 64) : GuestState :=
  updateXmm g destinationIndex fun _ => (host.ofInt64 intValue, 0)

/-- `convertFloatToDoubleXmm`. -/
def convertFloatToDoubleXmm (host : HostDouble) (g : GuestState)
    (destinationIndex floatBits : BitVec 64) : GuestState :=
  updateXmm g destinationIndex fun _ => (host.ofFloat (floatBits.setWidth 32), 0)

/-- `convertInt32x2ToDoubleXmm`. -/
def convertInt32x2ToDoubleXmm (host : HostDouble) (g : GuestState)
    (destinationIndex lowBits : BitVec 64) : GuestState :=
  updateXmm g destinationIndex fun _ =>
    (host.ofInt32 (lowBits.setWidth 32), host.ofInt32 ((lowBits >>> 32).setWidth 32))

/-- `shiftLeftXmmDwords128`. -/
def shiftLeftXmmDwords128 (g : GuestState) (destinationIndex count : BitVec 64) : GuestState :=
  updateXmm g destinationIndex (shiftLeftDwords count)

/-- `testXmmBits128`. -/
def testXmmBits128 (g : GuestState) (destinationIndex sourceIndex : BitVec 64) : GuestState :=
  if h : destinationIndex.toNat < 16 ∧ sourceIndex.toNat < 16 then
    let destination := g.xmm ⟨_, h.1⟩
    let source := g.xmm ⟨_, h.2⟩
    let intersection := (destination.1 &&& source.1) ||| (destination.2 &&& source.2)
    let sourceOutsideDestination :=
      (~~~destination.1 &&& source.1) ||| (~~~destination.2 &&& source.2)
    let flags := (g.rflags &&& ~~~arithmeticFlagMask) ||| flagReservedOne
    let flags := if intersection = 0 then flags ||| flagZero else flags
    let flags := if sourceOutsideDestination = 0 then flags ||| flagCarry else flags
    { g with rflags := flags }
  else g

/-- The loop of `moveXmmByteMask32`. -/
def byteMask (value : XmmValue) : Nat → BitVec 64
  | 0 => 0
  | index + 1 =>
    byteMask value index |||
      (((halfOf 8 index value >>> (index % 8 * 8 + 7)) &&& 1) <<< index)

/-- `moveXmmByteMask32`. -/
def moveXmmByteMask32 (g : GuestState) (destinationIndex sourceIndex : BitVec 64) : GuestState :=
  match Register.ofIndex? destinationIndex.toNat with
  | none => g
  | some destination =>
    if h : sourceIndex.toNat < 16 then g.setReg destination (byteMask (g.xmm ⟨_, h⟩) 16) else g

/-- The packed operations of two registers, with the immediate that some of them have. -/
inductive PackedOperation
  | paddw | paddd | phaddd | pcmpeqb | pcmpeqd | pcmpeqq | pandn | pshufb
  | pshufd (control : BitVec 8) | palignr (count : BitVec 8) | pblendw (mask : BitVec 8)
  | punpcklwd | unpcklps | unpckhps | haddpd
  | addpd | subpd | mulpd | divpd | sqrtpd
  deriving DecidableEq, Repr

/-- The body of the helper of an operation, once its indices are checked. -/
def packedResult (host : HostDouble) (destination source : XmmValue) : PackedOperation → XmmValue
  | .paddw => addWords destination source
  | .paddd => addDwords destination source
  | .phaddd => horizontalAddDwords destination source
  | .pcmpeqb => compareEqualBytes destination source
  | .pcmpeqd => compareEqualDwords destination source
  | .pcmpeqq => compareEqualQwords destination source
  | .pandn => andNot destination source
  | .pshufb => shuffleBytes destination source
  | .pshufd control => shuffleDwords (control.setWidth 64) source
  | .palignr count => alignRightBytes (count.setWidth 64) destination source
  | .pblendw mask => blendWords (mask.setWidth 64) destination source 8
  | .punpcklwd => unpackLowWords destination source 4
  | .unpcklps => unpackLowSingle destination source
  | .unpckhps => unpackHighSingle destination source
  | .haddpd => horizontalAddDouble host destination source
  | .addpd => arithmeticDouble host 0 destination source
  | .subpd => arithmeticDouble host 1 destination source
  | .mulpd => arithmeticDouble host 2 destination source
  | .divpd => arithmeticDouble host 3 destination source
  | .sqrtpd => arithmeticDouble host 4 destination source

/-- The helpers of two registers. An immediate is at most `0xFF`, which is what the helpers that
take one check. -/
def packedHelper (host : HostDouble) (op : PackedOperation) (g : GuestState)
    (destinationIndex sourceIndex : BitVec 64) : GuestState :=
  combineXmm g destinationIndex sourceIndex fun destination source =>
    packedResult host destination source op

/-! ## What the instructions compute -/

/-- The instruction on 128 bits, lane by lane. -/
def packedValue (host : HostDouble) (destination source : BitVec 128) : PackedOperation → BitVec 128
  | .paddw => ofLanes 128 16 fun i => lane 16 i destination + lane 16 i source
  | .paddd => ofLanes 128 32 fun i => lane 32 i destination + lane 32 i source
  | .phaddd => ofLanes 128 32 fun i =>
    if i < 2 then lane 32 (2 * i) destination + lane 32 (2 * i + 1) destination
    else lane 32 (2 * (i - 2)) source + lane 32 (2 * (i - 2) + 1) source
  | .pcmpeqb => ofLanes 128 8 fun i =>
    if lane 8 i destination = lane 8 i source then BitVec.allOnes 8 else 0
  | .pcmpeqd => ofLanes 128 32 fun i =>
    if lane 32 i destination = lane 32 i source then BitVec.allOnes 32 else 0
  | .pcmpeqq => ofLanes 128 64 fun i =>
    if lane 64 i destination = lane 64 i source then BitVec.allOnes 64 else 0
  | .pandn => ~~~destination &&& source
  | .pshufb => ofLanes 128 8 fun i =>
    if (lane 8 i source).getLsbD 7 then 0 else lane 8 ((lane 8 i source).toNat % 16) destination
  | .pshufd control => ofLanes 128 32 fun i => lane 32 ((control.toNat >>> (2 * i)) % 4) source
  | .palignr count => ((destination ++ source) >>> (8 * count.toNat)).setWidth 128
  | .pblendw mask => ofLanes 128 16 fun i =>
    if mask.getLsbD i then lane 16 i source else lane 16 i destination
  | .punpcklwd => ofLanes 128 16 fun i =>
    if i % 2 = 0 then lane 16 (i / 2) destination else lane 16 (i / 2) source
  | .unpcklps => ofLanes 128 32 fun i =>
    if i % 2 = 0 then lane 32 (i / 2) destination else lane 32 (i / 2) source
  | .unpckhps => ofLanes 128 32 fun i =>
    if i % 2 = 0 then lane 32 (2 + i / 2) destination else lane 32 (2 + i / 2) source
  | .haddpd => ofLanes 128 64 fun i =>
    if i = 0 then host.add (lane 64 0 destination) (lane 64 1 destination)
    else host.add (lane 64 0 source) (lane 64 1 source)
  | .addpd => ofLanes 128 64 fun i => host.add (lane 64 i destination) (lane 64 i source)
  | .subpd => ofLanes 128 64 fun i => host.sub (lane 64 i destination) (lane 64 i source)
  | .mulpd => ofLanes 128 64 fun i => host.mul (lane 64 i destination) (lane 64 i source)
  | .divpd => ofLanes 128 64 fun i => host.div (lane 64 i destination) (lane 64 i source)
  | .sqrtpd => ofLanes 128 64 fun i => host.sqrt (lane 64 i source)

section

variable {w : Nat} (host : HostDouble) (destination source : XmmValue)

theorem laneAt_eq {count i : Nat} (hw : count * w = 64) (hi : i < 2 * count) (value : XmmValue) :
    laneAt w count value i = lane w i (joined value) :=
  lane_halfOf hw hi value

/-- What a loop collects. -/
theorem joined_collect (hw : 0 < w) {count total : Nat} (hcount : count * w = 64)
    (htotal : total = 2 * count) {f g : Nat → BitVec w} (h : ∀ i < 2 * count, f i = g i) :
    joined (collect w count f total) = ofLanes 128 w g := by
  subst htotal
  refine ofLanes_eq_iff (show 128 = 2 * count * w by rw [Nat.mul_assoc, hcount]) fun i hi => ?_
  rw [lane_collect hw hcount f hi, h i hi]

theorem joined_addWords : joined (addWords destination source) =
    packedValue host (joined destination) (joined source) .paddw := by
  unfold addWords packedValue
  refine joined_collect (by decide) (by decide) (by decide) fun i hi => ?_
  rw [laneAt_eq (by decide) hi, laneAt_eq (by decide) hi]

theorem joined_addDwords : joined (addDwords destination source) =
    packedValue host (joined destination) (joined source) .paddd := by
  unfold addDwords packedValue
  refine joined_collect (by decide) (by decide) (by decide) fun i hi => ?_
  rw [laneAt_eq (by decide) hi, laneAt_eq (by decide) hi]

theorem joined_compareEqualBytes : joined (compareEqualBytes destination source) =
    packedValue host (joined destination) (joined source) .pcmpeqb := by
  unfold compareEqualBytes packedValue
  refine joined_collect (by decide) (by decide) (by decide) fun i hi => ?_
  rw [laneAt_eq (by decide) hi, laneAt_eq (by decide) hi]
  rfl

theorem joined_compareEqualDwords : joined (compareEqualDwords destination source) =
    packedValue host (joined destination) (joined source) .pcmpeqd := by
  unfold compareEqualDwords packedValue
  refine joined_collect (by decide) (by decide) (by decide) fun i hi => ?_
  rw [laneAt_eq (by decide) hi, laneAt_eq (by decide) hi]

theorem and_low_nibble (mask : BitVec 8) : (mask &&& 0x0F).toNat = mask.toNat % 16 := by
  rw [BitVec.toNat_and, show (0x0F : BitVec 8).toNat = 2 ^ 4 - 1 by decide,
    Nat.and_two_pow_sub_one_eq_mod]

theorem and_sign_bit (mask : BitVec 8) : mask &&& 0x80 ≠ 0 ↔ mask.getLsbD 7 = true := by
  revert mask
  decide +kernel

theorem joined_shuffleBytes : joined (shuffleBytes destination source) =
    packedValue host (joined destination) (joined source) .pshufb := by
  unfold shuffleBytes packedValue
  refine joined_collect (by decide) (by decide) (by decide) fun i hi => ?_
  have hmask := Nat.mod_lt (lane 8 i (joined source)).toNat (show 0 < 16 by decide)
  dsimp only
  rw [laneAt_eq (by decide) hi, and_low_nibble, laneAt_eq (by decide) hmask]
  simp only [and_sign_bit]

theorem joined_shiftLeftDwords (count : BitVec 64) : joined (shiftLeftDwords count source) =
    ofLanes 128 32 fun i =>
      if count.toNat < 32 then lane 32 i (joined source) <<< count.toNat else 0 := by
  unfold shiftLeftDwords
  by_cases hcount : count.toNat < 32
  · simp only [hcount, if_true]
    refine joined_collect (by decide) (by decide) (by decide) fun i hi => ?_
    rw [laneAt_eq (by decide) hi]
    refine BitVec.eq_of_getLsbD_eq fun k hk => ?_
    simp [hk]
  · simp only [hcount, if_false]
    refine ofLanes_eq_iff (show 128 = 4 * 32 by decide) fun i _ => ?_
    refine BitVec.eq_of_getLsbD_eq fun k hk => ?_
    rw [getLsbD_lane, getLsbD_joined]
    simp

/-! ### Dwords in pairs -/

/-- Four dwords in two halves. -/
theorem joined_dwordPair {a b c d : BitVec 32} {f : Nat → BitVec 32} (h0 : f 0 = a) (h1 : f 1 = b)
    (h2 : f 2 = c) (h3 : f 3 = d) :
    joined (dwordPair a b, dwordPair c d) = ofLanes 128 32 f := by
  have hcollect : (dwordPair a b, dwordPair c d) = collect 32 2 f 4 := by
    simp [collect, dwordPair, h0, h1, h2, h3]
  rw [hcollect]
  exact joined_collect (by decide) (by decide) (by decide) fun _ _ => rfl

/-- The dwords of the two halves. -/
theorem dwords_of_halves (value : XmmValue) :
    value.1.setWidth 32 = lane 32 0 (joined value) ∧
      (value.1 >>> 32).setWidth 32 = lane 32 1 (joined value) ∧
      value.2.setWidth 32 = lane 32 2 (joined value) ∧
      (value.2 >>> 32).setWidth 32 = lane 32 3 (joined value) := by
  have h (i : Nat) (hi : i < 2 * 2) : laneAt 32 2 value i = lane 32 i (joined value) :=
    laneAt_eq (by decide) hi value
  refine ⟨?_, ?_, ?_, ?_⟩
  · simpa [laneAt, halfOf] using h 0 (by decide)
  · simpa [laneAt, halfOf] using h 1 (by decide)
  · simpa [laneAt, halfOf] using h 2 (by decide)
  · simpa [laneAt, halfOf] using h 3 (by decide)

theorem joined_horizontalAddDwords : joined (horizontalAddDwords destination source) =
    packedValue host (joined destination) (joined source) .phaddd := by
  have h (value : XmmValue) (i : Nat) (hi : i < 2 * 2) :
      laneAt 32 2 value i = lane 32 i (joined value) := laneAt_eq (by decide) hi value
  unfold horizontalAddDwords packedValue
  rw [h destination 0 (by decide), h destination 1 (by decide), h destination 2 (by decide),
    h destination 3 (by decide), h source 0 (by decide), h source 1 (by decide),
    h source 2 (by decide), h source 3 (by decide)]
  exact joined_dwordPair rfl rfl rfl rfl

theorem joined_unpackLowSingle : joined (unpackLowSingle destination source) =
    packedValue host (joined destination) (joined source) .unpcklps := by
  obtain ⟨d0, d1, -, -⟩ := dwords_of_halves destination
  obtain ⟨s0, s1, -, -⟩ := dwords_of_halves source
  unfold unpackLowSingle packedValue
  rw [d0, d1, s0, s1]
  exact joined_dwordPair rfl rfl rfl rfl

theorem joined_unpackHighSingle : joined (unpackHighSingle destination source) =
    packedValue host (joined destination) (joined source) .unpckhps := by
  obtain ⟨-, -, d2, d3⟩ := dwords_of_halves destination
  obtain ⟨-, -, s2, s3⟩ := dwords_of_halves source
  unfold unpackHighSingle packedValue
  rw [d2, d3, s2, s3]
  exact joined_dwordPair rfl rfl rfl rfl

/-- The two bits of the control that select a dword. -/
theorem selection_eq (control : BitVec 8) (i : Nat) :
    (((control.setWidth 64) >>> (i * 2)) &&& 3).toNat = (control.toNat >>> (2 * i)) % 4 := by
  rw [BitVec.toNat_and, show (3 : BitVec 64).toNat = 2 ^ 2 - 1 by decide,
    Nat.and_two_pow_sub_one_eq_mod, BitVec.toNat_ushiftRight, BitVec.toNat_setWidth_of_le (by decide),
    Nat.mul_comm]

theorem joined_shuffleDwords (control : BitVec 8) :
    joined (shuffleDwords (control.setWidth 64) source) =
      packedValue host (joined destination) (joined source) (.pshufd control) := by
  obtain ⟨s0, s1, s2, s3⟩ := dwords_of_halves source
  have hselect (j : Nat) (hj : j < 4) :
      [lane 32 0 (joined source), lane 32 1 (joined source), lane 32 2 (joined source),
        lane 32 3 (joined source)].getD j 0 = lane 32 j (joined source) := by
    match j, hj with
    | 0, _ => rfl
    | 1, _ => rfl
    | 2, _ => rfl
    | 3, _ => rfl
  have hlt (i : Nat) : (control.toNat >>> (2 * i)) % 4 < 4 := Nat.mod_lt _ (by decide)
  unfold shuffleDwords packedValue
  dsimp only
  rw [s0, s1, s2, s3]
  simp only [selection_eq]
  exact joined_dwordPair (hselect _ (hlt 0)).symm (hselect _ (hlt 1)).symm (hselect _ (hlt 2)).symm
    (hselect _ (hlt 3)).symm

/-! ### Qwords -/

/-- Two qwords are the halves. -/
theorem joined_qwords {a b : BitVec 64} {f : Nat → BitVec 64} (h0 : f 0 = a) (h1 : f 1 = b) :
    joined (a, b) = ofLanes 128 64 f := by
  have hcollect : (a, b) = collect 64 1 f 2 := by
    simp [collect, h0, h1]
  rw [hcollect]
  exact joined_collect (by decide) (by decide) (by decide) fun _ _ => rfl

theorem qwords_of_halves (value : XmmValue) :
    value.1 = lane 64 0 (joined value) ∧ value.2 = lane 64 1 (joined value) := by
  have h (i : Nat) (hi : i < 2 * 1) : laneAt 64 1 value i = lane 64 i (joined value) :=
    laneAt_eq (by decide) hi value
  refine ⟨?_, ?_⟩
  · simpa [laneAt, halfOf] using h 0 (by decide)
  · simpa [laneAt, halfOf] using h 1 (by decide)

theorem joined_compareEqualQwords : joined (compareEqualQwords destination source) =
    packedValue host (joined destination) (joined source) .pcmpeqq := by
  obtain ⟨d0, d1⟩ := qwords_of_halves destination
  obtain ⟨s0, s1⟩ := qwords_of_halves source
  unfold compareEqualQwords packedValue
  exact joined_qwords (by rw [← d0, ← s0]) (by rw [← d1, ← s1])

theorem joined_horizontalAddDouble : joined (horizontalAddDouble host destination source) =
    packedValue host (joined destination) (joined source) .haddpd := by
  obtain ⟨d0, d1⟩ := qwords_of_halves destination
  obtain ⟨s0, s1⟩ := qwords_of_halves source
  unfold horizontalAddDouble packedValue
  exact joined_qwords (by rw [← d0, ← d1]; rfl) (by rw [← s0, ← s1]; rfl)

theorem joined_arithmeticDouble {operation : BitVec 64}
    {f : BitVec 64 → BitVec 64 → BitVec 64}
    (h : ∀ a b, arithmeticLane host operation a b = f a b) :
    joined (arithmeticDouble host operation destination source) =
      ofLanes 128 64 fun i => f (lane 64 i (joined destination)) (lane 64 i (joined source)) := by
  obtain ⟨d0, d1⟩ := qwords_of_halves destination
  obtain ⟨s0, s1⟩ := qwords_of_halves source
  unfold arithmeticDouble
  rw [h, h]
  exact joined_qwords (by rw [← d0, ← s0]) (by rw [← d1, ← s1])

theorem joined_andNot : joined (andNot destination source) =
    packedValue host (joined destination) (joined source) .pandn := by
  refine BitVec.eq_of_getLsbD_eq fun k hk => ?_
  simp only [packedValue, andNot, getLsbD_joined, BitVec.getLsbD_and, BitVec.getLsbD_not]
  by_cases hlow : k < 64
  · simp [hlow, hk]
  · simp [hlow, hk, show k - 64 < 64 by omega]

/-! ### Bytes in memory -/

/-- The bytes of a value in memory are its lanes. -/
theorem getD_bytesOfXmm (value : XmmValue) {i : Nat} (hi : i < 16) :
    (bytesOfXmm value).getD i 0 = lane 8 i (joined value) := by
  rw [← laneAt_eq (by decide : 8 * 8 = 64) (by omega) value, laneAt]
  by_cases hlow : i < 8
  · rw [halfOf, if_pos hlow, Nat.mod_eq_of_lt hlow, bytesOfXmm, List.getD_append _ _ _ _ (by simpa),
      getD_littleEndian _ hlow, Nat.mul_comm]
  · rw [halfOf, if_neg hlow, bytesOfXmm, List.getD_append_right _ _ _ _ (by simpa using hlow),
      length_littleEndian, getD_littleEndian _ (by omega), Nat.mul_comm,
      show i % 8 = i - 8 by omega]

theorem lane_xmmOfBytes (bytes : List Byte) {i : Nat} (hi : i < 16) :
    lane 8 i (joined (xmmOfBytes bytes)) = bytes.getD i 0 := by
  refine BitVec.eq_of_getLsbD_eq fun k hk => ?_
  rw [getLsbD_lane, getLsbD_joined]
  by_cases hlow : i < 8
  · rw [if_pos (by omega), xmmOfBytes, getLsbD_ofLittleEndian _ _ (by omega),
      show (i * 8 + k) / 8 = i by omega, show (i * 8 + k) % 8 = k by omega]
    simp [hk, show i * 8 + k < 8 * 8 by omega]
  · rw [if_neg (by omega), xmmOfBytes, getLsbD_ofLittleEndian _ _ (by omega),
      show (i * 8 + k - 64) / 8 = i - 8 by omega, show (i * 8 + k - 64) % 8 = k by omega]
    simp [hk, show i * 8 + k - 64 < 8 * 8 by omega, List.getD_eq_getElem?_getD, List.getElem?_drop,
      show 8 + (i - 8) = i by omega]

/-- Lanes of the destination and the source, one behind the other. -/
theorem lane_append (high low : BitVec 128) (j : Nat) :
    lane 8 j (high ++ low) = if j < 16 then lane 8 j low else lane 8 (j - 16) high := by
  refine BitVec.eq_of_getLsbD_eq fun k hk => ?_
  rw [getLsbD_lane, BitVec.getLsbD_append]
  by_cases hj : j < 16
  · rw [if_pos hj, getLsbD_lane, if_pos (by omega)]
  · rw [if_neg hj, getLsbD_lane, if_neg (by omega), show j * 8 + k - 128 = (j - 16) * 8 + k by omega]

/-- The sixteen bytes from `n` on, with zeros behind the last one. -/
theorem getD_window {bytes : List Byte} (hlength : bytes.length = 32) (n : Nat) {i : Nat}
    (hi : i < 16) :
    ((bytes.drop n).take (if n < 32 then min 16 (32 - n) else 0) ++
        List.replicate (16 - if n < 32 then min 16 (32 - n) else 0) 0).getD i 0 =
      bytes.getD (n + i) 0 := by
  by_cases hin : n + i < 32
  · rw [if_pos (by omega), List.getD_append _ _ _ _ (by simp [hlength]; omega)]
    simp [List.getD_eq_getElem?_getD, List.getElem?_drop, show i < 16 ∧ i < 32 - n by omega]
  · rw [List.getD_eq_default bytes _ (by omega),
      List.getD_append_right _ _ _ _ (by simp [hlength]; split <;> omega)]
    have hzero (c : Prop) [Decidable c] : (if c then some (0 : Byte) else none).getD 0 = 0 := by
      split <;> rfl
    rw [List.getD_eq_getElem?_getD, List.getElem?_replicate]
    exact hzero _

theorem joined_alignRightBytes (count : BitVec 8) :
    joined (alignRightBytes (count.setWidth 64) destination source) =
      packedValue host (joined destination) (joined source) (.palignr count) := by
  have hcount : (count.setWidth 64).toNat = count.toNat := BitVec.toNat_setWidth_of_le (by decide)
  have hlength (value : XmmValue) : (bytesOfXmm value).length = 16 := by simp [bytesOfXmm]
  refine eq_of_lanes (show 128 = 16 * 8 by decide) fun i hi => ?_
  unfold alignRightBytes packedValue
  rw [hcount]
  dsimp only
  rw [lane_xmmOfBytes _ hi, getD_window (by simp [hlength]) _ hi]
  have hshift : lane 8 i (((joined destination ++ joined source) >>> (8 * count.toNat)).setWidth 128) =
      lane 8 (count.toNat + i) (joined destination ++ joined source) := by
    refine BitVec.eq_of_getLsbD_eq fun k hk => ?_
    rw [getLsbD_lane, getLsbD_lane, BitVec.getLsbD_setWidth, BitVec.getLsbD_ushiftRight,
      show 8 * count.toNat + (i * 8 + k) = (count.toNat + i) * 8 + k by omega]
    simp [show i * 8 + k < 128 by omega]
  rw [hshift, lane_append]
  by_cases hlow : count.toNat + i < 16
  · rw [if_pos hlow, List.getD_append _ _ _ _ (by simpa [hlength] using hlow),
      getD_bytesOfXmm _ hlow]
  · rw [if_neg hlow, List.getD_append_right _ _ _ _ (by simpa [hlength] using hlow), hlength]
    by_cases hhigh : count.toNat + i - 16 < 16
    · rw [getD_bytesOfXmm _ hhigh]
    · rw [List.getD_eq_default _ _ (by rw [hlength]; omega)]
      refine BitVec.eq_of_getLsbD_eq fun k hk => ?_
      rw [getLsbD_lane, BitVec.getLsbD_of_ge (joined destination) _ (by omega)]
      simp

/-! ### Words -/

theorem word_mask : (0xFFFF : BitVec 64) = (BitVec.allOnes 16).setWidth 64 := by decide

theorem and_low_word (value : BitVec 64) : value &&& 0xFFFF = (value.setWidth 16).setWidth 64 := by
  refine BitVec.eq_of_getLsbD_eq fun k hk => ?_
  rw [word_mask, BitVec.getLsbD_and, BitVec.getLsbD_setWidth, BitVec.getLsbD_allOnes,
    BitVec.getLsbD_setWidth, BitVec.getLsbD_setWidth]
  simp [hk, Bool.and_comm]

theorem low_word_eq (value : XmmValue) {i : Nat} (hi : i < 4) :
    (value.1 >>> (i * 16)) &&& 0xFFFF = (lane 16 i (joined value)).setWidth 64 := by
  rw [and_low_word, ← laneAt_eq (by decide : 4 * 16 = 64) (by omega) value, laneAt, halfOf,
    if_pos hi, Nat.mod_eq_of_lt hi]

/-- Each turn collects two words. -/
theorem unpackLowWords_eq : ∀ n ≤ 4, unpackLowWords destination source n = collect 16 4 (fun i =>
    if i % 2 = 0 then lane 16 (i / 2) (joined destination)
    else lane 16 (i / 2) (joined source)) (2 * n)
  | 0, _ => rfl
  | n + 1, hn => by
    rw [unpackLowWords, unpackLowWords_eq n (by omega), show 2 * (n + 1) = 2 * n + 1 + 1 by omega,
      collect, collect, low_word_eq _ (show n < 4 by omega), low_word_eq _ (show n < 4 by omega)]
    simp only [show 2 * n % 2 = 0 by omega, show (2 * n + 1) % 2 ≠ 0 by omega, if_true, if_false,
      show 2 * n / 2 = n by omega, show (2 * n + 1) / 2 = n by omega, Nat.mul_comm n 2,
      show (2 * n + 1) % 4 * 16 = 2 * n % 4 * 16 + 16 by omega]
    by_cases hhalf : 2 * n < 4
    · simp only [hhalf, show 2 * n + 1 < 4 by omega, if_true]
    · simp only [hhalf, show ¬2 * n + 1 < 4 by omega, if_false]

theorem joined_unpackLowWords : joined (unpackLowWords destination source 4) =
    packedValue host (joined destination) (joined source) .punpcklwd := by
  rw [unpackLowWords_eq destination source 4 le_rfl]
  unfold packedValue
  exact joined_collect (by decide) (by decide) rfl fun _ _ => rfl

/-- A word of the result is replaced. -/
theorem getLsbD_blendWord (x y : BitVec 64) {a k : Nat} (hk : k < 64) :
    (blendWord y x (a * 16)).getLsbD k = if k / 16 = a then y.getLsbD k else x.getLsbD k := by
  have hmask : ((0xFFFF : BitVec 64) <<< (a * 16)).getLsbD k = decide (k / 16 = a) := by
    rw [word_mask, getLsbD_shifted (by decide) _ _ hk, BitVec.getLsbD_allOnes]
    simp [Nat.mod_lt k (show 0 < 16 by decide)]
  rw [blendWord, and_low_word, BitVec.getLsbD_or, BitVec.getLsbD_and, BitVec.getLsbD_not, hmask,
    getLsbD_shifted (by decide) _ _ hk]
  by_cases ha : k / 16 = a
  · have hsplit : a * 16 + k % 16 = k := by omega
    simp [ha, hk, hsplit, Nat.mod_lt k (show 0 < 16 by decide)]
  · simp [ha, hk]

theorem mask_bit (mask : BitVec 8) (n : Nat) :
    (mask.setWidth 64 >>> n) &&& 1 = 0 ↔ mask.getLsbD n = false := by
  constructor
  · intro h
    have h0 := congrArg (fun v => BitVec.getLsbD v 0) h
    by_cases hn : n < 64
    · simpa [hn] using h0
    · exact BitVec.getLsbD_of_ge _ _ (by omega)
  · intro h
    refine BitVec.eq_of_getLsbD_eq fun k hk => ?_
    cases k with
    | zero => simp [h]
    | succ k => simp

/-- The first turns have replaced the words of the mask among the first ones. -/
theorem getLsbD_blendWords (mask : BitVec 8) {k : Nat} (hk : k < 128) : ∀ n ≤ 8,
    (joined (blendWords (mask.setWidth 64) destination source n)).getLsbD k =
      if k / 16 < n ∧ mask.getLsbD (k / 16) = true then (joined source).getLsbD k
      else (joined destination).getLsbD k
  | 0, _ => by simp [blendWords]
  | n + 1, hn => by
    have ih := getLsbD_blendWords mask hk n (by omega)
    rw [blendWords]
    by_cases hbit : mask.getLsbD n = false
    · have hsame : (k / 16 < n + 1 ∧ mask.getLsbD (k / 16) = true) ↔
          (k / 16 < n ∧ mask.getLsbD (k / 16) = true) := by
        constructor
        · rintro ⟨h1, h2⟩
          refine ⟨?_, h2⟩
          have : k / 16 ≠ n := fun h => by simp [h, hbit] at h2
          omega
        · rintro ⟨h1, h2⟩
          exact ⟨by omega, h2⟩
      simp only [mask_bit, hbit, if_true, ih, hsame]
    · have hset : mask.getLsbD n = true := by simpa using hbit
      rw [if_neg (mt (mask_bit mask n).mp hbit)]
      rw [getLsbD_joined] at ih
      -- the turn writes the half that holds word `n`
      by_cases hhalf : n < 4
      · rw [if_pos hhalf, getLsbD_joined, Nat.mod_eq_of_lt hhalf]
        by_cases hlow : k < 64
        · rw [if_pos hlow, getLsbD_blendWord _ _ hlow]
          rw [if_pos hlow] at ih
          by_cases hword : k / 16 = n
          · simp [hword, hset, getLsbD_joined, hlow]
          · rw [if_neg hword, ih]
            simp [show k / 16 < n + 1 ↔ k / 16 < n by omega]
        · rw [if_neg hlow] at ih ⊢
          rw [ih]
          simp [show ¬k / 16 < n by omega, show ¬k / 16 < n + 1 by omega]
      · rw [if_neg hhalf, getLsbD_joined, show n % 4 = n - 4 by omega]
        by_cases hlow : k < 64
        · rw [if_pos hlow] at ih ⊢
          rw [ih]
          simp [show k / 16 < n by omega, show k / 16 < n + 1 by omega]
        · rw [if_neg hlow, getLsbD_blendWord _ _ (by omega)]
          rw [if_neg hlow] at ih
          by_cases hword : k / 16 = n
          · simp [show (k - 64) / 16 = n - 4 by omega, hword, hset, getLsbD_joined, hlow]
          · rw [if_neg (by omega), ih]
            simp [show k / 16 < n + 1 ↔ k / 16 < n by omega]

theorem joined_blendWords (mask : BitVec 8) :
    joined (blendWords (mask.setWidth 64) destination source 8) =
      packedValue host (joined destination) (joined source) (.pblendw mask) := by
  refine BitVec.eq_of_getLsbD_eq fun k hk => ?_
  have hlane (v : BitVec 128) : (lane 16 (k / 16) v).getLsbD (k % 16) = v.getLsbD k := by
    rw [getLsbD_lane, show k / 16 * 16 + k % 16 = k by omega]
    simp [Nat.mod_lt k (show 0 < 16 by decide)]
  rw [getLsbD_blendWords destination source mask hk 8 le_rfl, packedValue, getLsbD_ofLanes]
  by_cases hbit : mask.getLsbD (k / 16) = true
  · rw [if_pos ⟨by omega, hbit⟩, if_pos hbit, hlane, decide_eq_true hk, Bool.true_and]
  · rw [if_neg fun h => hbit h.2, if_neg hbit, hlane, decide_eq_true hk, Bool.true_and]

/-- The body of every helper computes its instruction. -/
theorem joined_packedResult (op : PackedOperation) :
    joined (packedResult host destination source op) =
      packedValue host (joined destination) (joined source) op := by
  cases op with
  | paddw => exact joined_addWords host destination source
  | paddd => exact joined_addDwords host destination source
  | phaddd => exact joined_horizontalAddDwords host destination source
  | pcmpeqb => exact joined_compareEqualBytes host destination source
  | pcmpeqd => exact joined_compareEqualDwords host destination source
  | pcmpeqq => exact joined_compareEqualQwords host destination source
  | pandn => exact joined_andNot host destination source
  | pshufb => exact joined_shuffleBytes host destination source
  | pshufd control => exact joined_shuffleDwords host destination source control
  | palignr count => exact joined_alignRightBytes host destination source count
  | pblendw mask => exact joined_blendWords host destination source mask
  | punpcklwd => exact joined_unpackLowWords host destination source
  | unpcklps => exact joined_unpackLowSingle host destination source
  | unpckhps => exact joined_unpackHighSingle host destination source
  | haddpd => exact joined_horizontalAddDouble host destination source
  | addpd => exact joined_arithmeticDouble host destination source fun _ _ => rfl
  | subpd => exact joined_arithmeticDouble host destination source fun _ _ => rfl
  | mulpd => exact joined_arithmeticDouble host destination source fun _ _ => rfl
  | divpd => exact joined_arithmeticDouble host destination source fun _ _ => rfl
  | sqrtpd =>
    exact joined_arithmeticDouble host destination source (f := fun _ b => host.sqrt b)
      fun _ _ => rfl

end

/-! ## Flags and masks -/

/-- The flags of `PTEST`. -/
def ptestFlags (rflags : BitVec 64) (destination source : BitVec 128) : BitVec 64 :=
  composeFlags (rflags &&& ~~~arithmeticFlagMask)
    { zero := decide (destination &&& source = 0)
      carry := decide (~~~destination &&& source = 0) }

/-- The mask of `PMOVMSKB` : the sign bits of the bytes, zero-extended. -/
def byteSigns (value : BitVec 128) : BitVec 64 :=
  ofLanes 64 1 fun i => if i < 16 then BitVec.ofBool ((lane 8 i value).getLsbD 7) else 0

theorem joined_eq_zero (v : XmmValue) : joined v = 0 ↔ v.1 ||| v.2 = 0 := by
  show joined v = 0#128 ↔ v.1 ||| v.2 = 0#64
  rw [BitVec.or_eq_zero_iff]
  constructor
  · intro h
    have hv : v = (0, 0) := joined_injective (h.trans (by decide))
    rw [hv]
    exact ⟨rfl, rfl⟩
  · rintro ⟨h1, h2⟩
    rw [show v = (0, 0) from Prod.ext h1 h2]
    decide

theorem joined_and (v u : XmmValue) : joined v &&& joined u = joined (v.1 &&& u.1, v.2 &&& u.2) := by
  refine BitVec.eq_of_getLsbD_eq fun k _ => ?_
  simp only [BitVec.getLsbD_and, getLsbD_joined]
  split <;> rfl

theorem testXmmBits_flags (rflags : BitVec 64) (destination source : XmmValue) :
    (let flags := (rflags &&& ~~~arithmeticFlagMask) ||| flagReservedOne
     let flags := if (destination.1 &&& source.1) ||| (destination.2 &&& source.2) = 0 then
        flags ||| flagZero else flags
     if (~~~destination.1 &&& source.1) ||| (~~~destination.2 &&& source.2) = 0 then
        flags ||| flagCarry else flags) =
      ptestFlags rflags (joined destination) (joined source) := by
  have hand := joined_eq_zero (destination.1 &&& source.1, destination.2 &&& source.2)
  have houtside := joined_eq_zero (andNot destination source)
  rw [← joined_and] at hand
  have hjoined : joined (andNot destination source) = ~~~joined destination &&& joined source := by
    refine BitVec.eq_of_getLsbD_eq fun k hk => ?_
    simp only [andNot, getLsbD_joined, BitVec.getLsbD_and, BitVec.getLsbD_not]
    by_cases hlow : k < 64
    · simp [hlow, hk]
    · simp [hlow, hk, show k - 64 < 64 by omega]
  rw [hjoined] at houtside
  simp only [andNot] at hand houtside
  unfold ptestFlags composeFlags
  simp only [← hand, ← houtside]
  by_cases h1 : joined destination &&& joined source = 0 <;>
    by_cases h2 : ~~~joined destination &&& joined source = 0 <;>
    simp only [h1, h2, flagWhen, decide_true, decide_false, if_true, if_false, Bool.false_eq_true,
      show ∀ x : BitVec 64, x ||| 0 = x from fun x => BitVec.or_zero, BitVec.or_assoc,
      BitVec.or_comm flagZero flagCarry]

theorem getLsbD_byteMask (value : XmmValue) {k : Nat} (hk : k < 64) : ∀ n,
    (byteMask value n).getLsbD k =
      (decide (k < n) && (halfOf 8 k value).getLsbD (k % 8 * 8 + 7))
  | 0 => by simp [byteMask]
  | n + 1 => by
    have hbit (x : BitVec 64) : x &&& 1 = (x.setWidth 1).setWidth 64 := by
      refine BitVec.eq_of_getLsbD_eq fun j hj => ?_
      rw [show (1 : BitVec 64) = (BitVec.allOnes 1).setWidth 64 by decide, BitVec.getLsbD_and,
        BitVec.getLsbD_setWidth, BitVec.getLsbD_allOnes, BitVec.getLsbD_setWidth,
        BitVec.getLsbD_setWidth]
      simp [hj, Bool.and_comm]
    have hshift := getLsbD_shifted (by decide)
      ((halfOf 8 n value >>> (n % 8 * 8 + 7)).setWidth 1) n hk
    rw [Nat.mul_one, Nat.div_one, Nat.mod_one] at hshift
    rw [byteMask, hbit, BitVec.getLsbD_or, getLsbD_byteMask value hk n, hshift]
    by_cases heq : k = n
    · subst heq
      simp
    · simp [heq, show k < n + 1 ↔ k < n by omega]

theorem byteMask_eq (value : XmmValue) : byteMask value 16 = byteSigns (joined value) := by
  refine BitVec.eq_of_getLsbD_eq fun k hk => ?_
  rw [getLsbD_byteMask value hk, byteSigns, getLsbD_ofLanes, Nat.div_one, Nat.mod_one]
  by_cases hlow : k < 16
  · have hlane := laneAt_eq (by decide : 8 * 8 = 64) (show k < 2 * 8 by omega) value
    have hsign := congrArg (fun v => BitVec.getLsbD v 7) hlane
    simp [laneAt] at hsign
    simp [hlow, hk, ← hsign]
  · simp [hlow]

/-- `MINSD` and `MAXSD` : the source, unless the destination is the smaller, or the greater. -/
def minimumDouble (host : HostDouble) (destination source : BitVec 64) : BitVec 64 :=
  if host.lt destination source then destination else source

def maximumDouble (host : HostDouble) (destination source : BitVec 64) : BitVec 64 :=
  if host.lt source destination then destination else source

/-- The scalar operations. -/
inductive ScalarOperation
  | addsd | subsd | mulsd | divsd | sqrtsd | minsd | maxsd
  deriving DecidableEq, Repr

/-- The number of an operation in `scalar_double_xmm`. -/
def ScalarOperation.number : ScalarOperation → BitVec 64
  | addsd => 0 | subsd => 1 | mulsd => 2 | divsd => 3 | sqrtsd => 4 | minsd => 5 | maxsd => 6

/-- The low half of the instruction. -/
def scalarValue (host : HostDouble) (destination source : BitVec 64) : ScalarOperation → BitVec 64
  | .addsd => host.add destination source
  | .subsd => host.sub destination source
  | .mulsd => host.mul destination source
  | .divsd => host.div destination source
  | .sqrtsd => host.sqrt source
  | .minsd => minimumDouble host destination source
  | .maxsd => maximumDouble host destination source

theorem scalarDouble_eq (host : HostDouble) (destination source : BitVec 64)
    (op : ScalarOperation) :
    scalarDouble host op.number destination source = scalarValue host destination source op := by
  have hsource (h : (host.isnan destination || host.isnan source ||
      host.eq destination source) = true) :
      host.lt destination source = false ∧ host.lt source destination = false := by
    rcases Bool.or_eq_true_iff.mp h with hnan | heq
    · exact ⟨host.lt_of_isnan _ _ hnan, host.lt_of_isnan _ _ (by rwa [Bool.or_comm])⟩
    · exact host.lt_of_eq _ _ heq
  have htotal (h : ¬(host.isnan destination || host.isnan source ||
      host.eq destination source) = true) :
      host.lt destination source = !host.lt source destination := by
    simp only [Bool.or_eq_true, not_or, Bool.not_eq_true] at h
    exact host.lt_total _ _ h.1.1 h.1.2 h.2
  cases op with
  | minsd =>
    simp only [scalarDouble, ScalarOperation.number, scalarValue, minimumDouble, stdMin]
    by_cases h : (host.isnan destination || host.isnan source ||
        host.eq destination source) = true
    · simp [h, (hsource h).1]
    · have := htotal h
      cases hlt : host.lt source destination <;> simp [h, this, hlt]
  | maxsd =>
    simp only [scalarDouble, ScalarOperation.number, scalarValue, maximumDouble, stdMax]
    by_cases h : (host.isnan destination || host.isnan source ||
        host.eq destination source) = true
    · simp [h, (hsource h).2]
    · have := htotal h
      cases hlt : host.lt source destination <;> simp [h, this, hlt]
  | _ => rfl

/-! ## The helpers on the guest state -/

/-- The number of a register, as the backend passes it. -/
def xmmIndex (r : XmmRegister) : BitVec 64 := BitVec.ofNat 64 r

theorem toNat_xmmIndex (r : XmmRegister) : (xmmIndex r).toNat = r := by
  have := r.isLt
  simp only [xmmIndex, BitVec.toNat_ofNat]
  omega

theorem updateXmm_index (g : GuestState) (r : XmmRegister) (f : XmmValue → XmmValue) :
    updateXmm g (xmmIndex r) f = g.setXmm r (f (g.xmm r)) := by
  have hlt : (xmmIndex r).toNat < 16 := by rw [toNat_xmmIndex]; exact r.isLt
  have hr : (⟨(xmmIndex r).toNat, hlt⟩ : XmmRegister) = r := Fin.ext (toNat_xmmIndex r)
  rw [updateXmm, dif_pos hlt, hr]
  rfl

theorem combineXmm_index (g : GuestState) (d s : XmmRegister) (f : XmmValue → XmmValue → XmmValue) :
    combineXmm g (xmmIndex d) (xmmIndex s) f = g.setXmm d (f (g.xmm d) (g.xmm s)) := by
  have hlt (r : XmmRegister) : (xmmIndex r).toNat < 16 := by rw [toNat_xmmIndex]; exact r.isLt
  have hr (r : XmmRegister) : (⟨(xmmIndex r).toNat, hlt r⟩ : XmmRegister) = r :=
    Fin.ext (toNat_xmmIndex r)
  rw [combineXmm, dif_pos ⟨hlt d, hlt s⟩, hr d, hr s]
  rfl

theorem packedHelper_eq (host : HostDouble) (op : PackedOperation) (g : GuestState)
    (d s : XmmRegister) : packedHelper host op g (xmmIndex d) (xmmIndex s) =
      g.setXmm d (halves (packedValue host (joined (g.xmm d)) (joined (g.xmm s)) op)) := by
  rw [packedHelper, combineXmm_index, ← joined_packedResult, halves_joined]

theorem testXmmBits128_eq (g : GuestState) (d s : XmmRegister) :
    testXmmBits128 g (xmmIndex d) (xmmIndex s) =
      { g with rflags := ptestFlags g.rflags (joined (g.xmm d)) (joined (g.xmm s)) } := by
  have hlt (r : XmmRegister) : (xmmIndex r).toNat < 16 := by rw [toNat_xmmIndex]; exact r.isLt
  have hr (r : XmmRegister) : (⟨(xmmIndex r).toNat, hlt r⟩ : XmmRegister) = r :=
    Fin.ext (toNat_xmmIndex r)
  rw [testXmmBits128, dif_pos ⟨hlt d, hlt s⟩, hr d, hr s, ← testXmmBits_flags]

theorem moveXmmByteMask32_eq (g : GuestState) (r : Register) (s : XmmRegister) :
    moveXmmByteMask32 g (BitVec.ofNat 64 r.index) (xmmIndex s) =
      g.setReg r (byteSigns (joined (g.xmm s))) := by
  have hlt : (xmmIndex s).toNat < 16 := by rw [toNat_xmmIndex]; exact s.isLt
  have hs : (⟨(xmmIndex s).toNat, hlt⟩ : XmmRegister) = s := Fin.ext (toNat_xmmIndex s)
  have hr : (BitVec.ofNat 64 r.index).toNat = r.index := by
    have := r.index_lt
    simp only [BitVec.toNat_ofNat]
    omega
  rw [moveXmmByteMask32, hr, Register.ofIndex?_index]
  dsimp only
  rw [dif_pos hlt, hs, byteMask_eq]

theorem shiftLeftXmmDwords128_eq (g : GuestState) (d : XmmRegister) (count : BitVec 64) :
    shiftLeftXmmDwords128 g (xmmIndex d) count = g.setXmm d (halves (ofLanes 128 32 fun i =>
      if count.toNat < 32 then lane 32 i (joined (g.xmm d)) <<< count.toNat else 0)) := by
  rw [shiftLeftXmmDwords128, updateXmm_index, ← joined_shiftLeftDwords, halves_joined]

end Rosa
