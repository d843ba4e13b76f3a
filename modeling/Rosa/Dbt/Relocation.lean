import Rosa.Dbt.BlockCache

/-!
# Pointer relocations

A program refers to the helpers of the process by four words that move the halfwords of a
pointer into x16. `relocateProgram` of `dbt/BlockCache.cpp` checks the words at every
relocation and shifts the pointer in them. Only the immediate fields change, so what the
words look like survives, and two relocations are at the same offset or do not overlap : a
pointer is shifted once for each time its offset is listed.
-/

namespace Rosa

/-! ## Words in bytes -/

/-- `readArmWord`. -/
def readArmWord (bytes : List Byte) (offset : Nat) : BitVec 32 :=
  ofLittleEndian 32 4 (bytes.drop offset)

/-- `writeArmWord`. -/
def writeArmWord (bytes : List Byte) (offset : Nat) (word : BitVec 32) : List Byte :=
  (List.range 4).foldl
    (fun bytes i => bytes.set (offset + i) ((word >>> (8 * i)).setWidth 8)) bytes

@[simp] theorem length_writeArmWord (bytes : List Byte) (offset : Nat) (word : BitVec 32) :
    (writeArmWord bytes offset word).length = bytes.length := by
  simp [writeArmWord, List.range_succ]

theorem getElem?_writeArmWord {bytes : List Byte} {offset : Nat} {word : BitVec 32}
    (hfits : offset + 4 ≤ bytes.length) (j : Nat) :
    (writeArmWord bytes offset word)[j]? =
      if offset ≤ j ∧ j < offset + 4 then some ((word >>> (8 * (j - offset))).setWidth 8)
      else bytes[j]? := by
  simp only [writeArmWord, List.range_succ, List.range_zero, List.nil_append, List.foldl_append,
    List.foldl_cons, List.foldl_nil, List.getElem?_set, List.length_set]
  by_cases h : offset ≤ j ∧ j < offset + 4
  · obtain ⟨i, rfl⟩ := Nat.exists_eq_add_of_le h.1
    have hi : i = 0 ∨ i = 1 ∨ i = 2 ∨ i = 3 := by omega
    rw [if_pos h]
    rcases hi with rfl | rfl | rfl | rfl
    all_goals
      simp
      omega
  · rw [if_neg h]
    have h0 : offset + 0 ≠ j := by omega
    have h1 : offset + 1 ≠ j := by omega
    have h2 : offset + 2 ≠ j := by omega
    have h3 : offset + 3 ≠ j := by omega
    simp [h1, h2, h3, show offset ≠ j from h0]

theorem readArmWord_congr {bytes bytes' : List Byte} {offset : Nat}
    (h : ∀ i < 4, bytes'[offset + i]? = bytes[offset + i]?) :
    readArmWord bytes' offset = readArmWord bytes offset := by
  refine ofLittleEndian_congr fun i hi => ?_
  simp [List.getD, h i hi]

theorem readArmWord_eq {bytes : List Byte} {offset : Nat} {word : BitVec 32}
    (h : ∀ i < 4, bytes[offset + i]? = some ((word >>> (8 * i)).setWidth 8)) :
    readArmWord bytes offset = word := by
  rw [← ofLittleEndian_littleEndian (show 32 ≤ 8 * 4 by decide) word]
  refine ofLittleEndian_congr fun i hi => ?_
  rw [getD_littleEndian _ hi]
  simp [List.getD, h i hi]

theorem readArmWord_writeArmWord_self {bytes : List Byte} {offset : Nat} {word : BitVec 32}
    (hfits : offset + 4 ≤ bytes.length) :
    readArmWord (writeArmWord bytes offset word) offset = word := by
  refine readArmWord_eq fun i hi => ?_
  rw [getElem?_writeArmWord hfits, if_pos (by omega), Nat.add_sub_cancel_left]

theorem readArmWord_writeArmWord_of_disjoint {bytes : List Byte} {offset other : Nat}
    {word : BitVec 32} (hfits : offset + 4 ≤ bytes.length)
    (h : other + 4 ≤ offset ∨ offset + 4 ≤ other) :
    readArmWord (writeArmWord bytes offset word) other = readArmWord bytes other := by
  refine readArmWord_congr fun i hi => ?_
  rw [getElem?_writeArmWord hfits, if_neg (by omega)]

/-! ## The words of a pointer -/

/-- The opcode bits of the word that moves a halfword. -/
def expectedBase (halfword : Nat) : BitVec 32 :=
  if halfword = 0 then 0xD2800000#32 else 0xF2800000#32

/-- The word moves this halfword into x16. -/
def isPointerWord (word : BitVec 32) (halfword : Nat) : Bool :=
  (word &&& 0xFFE00000#32) ==
      ((expectedBase halfword ||| (BitVec.ofNat 32 halfword <<< 21)) &&& 0xFFE00000#32) &&
    (word &&& 0x1F#32) == 16#32

/-- The immediate field of the word. -/
def immediate (word : BitVec 32) : BitVec 64 := ((word >>> 5) &&& 0xFFFF#32).setWidth 64

/-- The word with a halfword of the pointer in its immediate field. -/
def withImmediate (word : BitVec 32) (pointer : BitVec 64) (halfword : Nat) : BitVec 32 :=
  (word &&& ~~~(0xFFFF#32 <<< 5)) |||
    (((pointer >>> (16 * halfword)) &&& 0xFFFF#64).setWidth 32 <<< 5)

theorem getLsbD_immediateMask : ∀ i < 32,
    (0xFFFF#32 <<< 5).getLsbD i = (decide (5 ≤ i) && decide (i < 21)) := by decide

theorem getLsbD_opcodeMask : ∀ i < 32, (0xFFE00000#32).getLsbD i = decide (21 ≤ i) := by decide

theorem getLsbD_registerMask : ∀ i < 32, (0x1F#32).getLsbD i = decide (i < 5) := by decide

theorem getLsbD_halfwordMask32 : ∀ i < 32, (0xFFFF#32).getLsbD i = decide (i < 16) := by decide

theorem getLsbD_halfwordMask64 : ∀ i < 64, (0xFFFF#64).getLsbD i = decide (i < 16) := by decide

theorem getLsbD_withImmediate (word : BitVec 32) (pointer : BitVec 64) (halfword : Nat) {i : Nat}
    (hi : i < 32) : (withImmediate word pointer halfword).getLsbD i =
      if 5 ≤ i ∧ i < 21 then pointer.getLsbD (16 * halfword + (i - 5)) else word.getLsbD i := by
  simp only [withImmediate, BitVec.getLsbD_or, BitVec.getLsbD_and, BitVec.getLsbD_not,
    getLsbD_immediateMask i hi, BitVec.getLsbD_shiftLeft, BitVec.getLsbD_setWidth,
    BitVec.getLsbD_ushiftRight, hi, decide_true, Bool.true_and]
  rcases Nat.lt_or_ge i 5 with h | h
  · simp [h, show ¬5 ≤ i by omega]
  · have hm := getLsbD_halfwordMask64 (i - 5) (by omega)
    rcases Nat.lt_or_ge i 21 with h' | h'
    · simp [h, h', hm, show i - 5 < 16 by omega, show i - 5 < 32 by omega, show ¬i < 5 by omega]
    · simp [h, show ¬i < 21 by omega, hm, show ¬i - 5 < 16 by omega]

theorem isPointerWord_withImmediate (word : BitVec 32) (pointer : BitVec 64) (halfword other : Nat) :
    isPointerWord (withImmediate word pointer halfword) other = isPointerWord word other := by
  have h1 : withImmediate word pointer halfword &&& 0xFFE00000#32 = word &&& 0xFFE00000#32 := by
    apply BitVec.eq_of_getLsbD_eq
    intro i hi
    rw [BitVec.getLsbD_and, BitVec.getLsbD_and, getLsbD_withImmediate _ _ _ hi,
      getLsbD_opcodeMask i hi]
    split
    · next h => simp [show ¬21 ≤ i by omega]
    · rfl
  have h2 : withImmediate word pointer halfword &&& 0x1F#32 = word &&& 0x1F#32 := by
    apply BitVec.eq_of_getLsbD_eq
    intro i hi
    rw [BitVec.getLsbD_and, BitVec.getLsbD_and, getLsbD_withImmediate _ _ _ hi,
      getLsbD_registerMask i hi]
    split
    · next h => simp [show ¬i < 5 by omega]
    · rfl
  rw [isPointerWord, h1, h2, isPointerWord]

theorem immediate_withImmediate (word : BitVec 32) (pointer : BitVec 64) (halfword : Nat) :
    immediate (withImmediate word pointer halfword) = (pointer >>> (16 * halfword)) &&& 0xFFFF#64 := by
  apply BitVec.eq_of_getLsbD_eq
  intro i hi
  simp only [immediate, BitVec.getLsbD_setWidth, BitVec.getLsbD_and, BitVec.getLsbD_ushiftRight,
    getLsbD_halfwordMask64 i hi, hi, decide_true, Bool.true_and]
  rcases Nat.lt_or_ge i 16 with h | h
  · rw [getLsbD_halfwordMask32 i (by omega), getLsbD_withImmediate _ _ _ (by omega)]
    simp [h, show 5 + i < 21 by omega, show 5 ≤ 5 + i by omega]
  · have : (0xFFFF#32).getLsbD i = false := by
      rcases Nat.lt_or_ge i 32 with h' | h'
      · rw [getLsbD_halfwordMask32 i h']
        simp [show ¬i < 16 by omega]
      · exact BitVec.getLsbD_of_ge _ _ h'
    simp [this, show ¬i < 16 by omega]

/-- The pointer in the four words at an offset. -/
def pointerAt (bytes : List Byte) (offset : Nat) : BitVec 64 :=
  (List.range 4).foldl
    (fun pointer halfword =>
      pointer ||| (immediate (readArmWord bytes (offset + halfword * 4)) <<< (halfword * 16))) 0

/-- A pointer is its halfwords. -/
theorem pointerAt_eq {bytes : List Byte} {offset : Nat} {pointer : BitVec 64}
    (h : ∀ k < 4, immediate (readArmWord bytes (offset + k * 4)) =
      (pointer >>> (16 * k)) &&& 0xFFFF#64) : pointerAt bytes offset = pointer := by
  simp only [pointerAt, List.range_succ, List.range_zero, List.nil_append, List.foldl_append,
    List.foldl_cons, List.foldl_nil, h 0 (by decide), h 1 (by decide), h 2 (by decide),
    h 3 (by decide)]
  apply BitVec.eq_of_getLsbD_eq
  intro i hi
  have hmask (k : Nat) : (0xFFFF#64).getLsbD (i - k * 16) = decide (i - k * 16 < 16) :=
    getLsbD_halfwordMask64 _ (by omega)
  simp only [BitVec.getLsbD_or, BitVec.getLsbD_shiftLeft, BitVec.getLsbD_and,
    BitVec.getLsbD_ushiftRight, hmask, hi, decide_true, Bool.true_and]
  have hcase : i / 16 = 0 ∨ i / 16 = 1 ∨ i / 16 = 2 ∨ i / 16 = 3 := by omega
  rcases hcase with h | h | h | h
  · simp [show i < 1 * 16 by omega, show i < 2 * 16 by omega, show i < 3 * 16 by omega]
  · simp [show ¬i < 1 * 16 by omega, show i < 2 * 16 by omega, show i < 3 * 16 by omega,
      show i - 1 * 16 < 16 by omega,
      show 16 * 1 + (i - 1 * 16) = i by omega]
  · simp [show ¬i < 1 * 16 by omega, show ¬i < 2 * 16 by omega, show i < 3 * 16 by omega,
      show ¬i - 1 * 16 < 16 by omega, show i - 2 * 16 < 16 by omega,
      show 16 * 2 + (i - 2 * 16) = i by omega]
  · simp [show ¬i < 1 * 16 by omega, show ¬i < 2 * 16 by omega, show ¬i < 3 * 16 by omega,
      show ¬i - 1 * 16 < 16 by omega,
      show ¬i - 2 * 16 < 16 by omega, show i - 3 * 16 < 16 by omega,
      show 16 * 3 + (i - 3 * 16) = i by omega]

/-! ## Relocation -/

/-- The four words at the offset move a pointer into x16. -/
structure PointerCode (bytes : List Byte) (offset : Nat) : Prop where
  aligned : offset % 4 = 0
  fits : offset + 16 ≤ bytes.length
  words : ∀ k < 4, isPointerWord (readArmWord bytes (offset + k * 4)) k = true

/-- The bytes with a pointer in the four words at an offset. -/
def writePointer (bytes : List Byte) (offset : Nat) (pointer : BitVec 64) : List Byte :=
  (List.range 4).foldl
    (fun result halfword =>
      writeArmWord result (offset + halfword * 4)
        (withImmediate (readArmWord bytes (offset + halfword * 4)) pointer halfword)) bytes

/-- One turn of the loop of `relocateProgram`. -/
def relocateAt (slide : BitVec 64) (bytes : List Byte) (offset : Nat) :
    Except String (List Byte) :=
  if offset % 4 != 0 || bytes.length < offset || bytes.length - offset < 16 then
    .error "persistent translation cache has an invalid relocation"
  else if (List.range 4).any fun k => !isPointerWord (readArmWord bytes (offset + k * 4)) k then
    .error "persistent translation cache relocation code is invalid"
  else .ok (writePointer bytes offset (pointerAt bytes offset + slide))

/-- The loop of `relocateProgram`. -/
def relocateBytes (slide : BitVec 64) : List (BitVec 32) → List Byte → Except String (List Byte)
  | [], bytes => .ok bytes
  | offset :: offsets, bytes =>
    match relocateAt slide bytes offset.toNat with
    | .error message => .error message
    | .ok bytes => relocateBytes slide offsets bytes

/-- `relocateProgram`, in a process with this helper anchor. -/
def relocateProgram (anchor oldAnchor : BitVec 64) (program : Program) : Except String Program :=
  match relocateBytes (anchor - oldAnchor) program.pointerRelocations program.bytes with
  | .error message => .error message
  | .ok bytes => .ok { program with bytes }

/-- The bytes differ in immediate fields only. -/
structure SameCodeBits (bytes bytes' : List Byte) : Prop where
  length : bytes'.length = bytes.length
  words : ∀ offset, offset % 4 = 0 → offset + 4 ≤ bytes.length → ∀ k,
    isPointerWord (readArmWord bytes' offset) k = isPointerWord (readArmWord bytes offset) k ∧
      readArmWord bytes' offset &&& ~~~(0xFFFF#32 <<< 5) =
        readArmWord bytes offset &&& ~~~(0xFFFF#32 <<< 5)

theorem SameCodeBits.refl (bytes : List Byte) : SameCodeBits bytes bytes :=
  ⟨rfl, fun _ _ _ _ => ⟨rfl, rfl⟩⟩

theorem SameCodeBits.trans {a b c : List Byte} (h : SameCodeBits a b) (h' : SameCodeBits b c) :
    SameCodeBits a c where
  length := h'.length.trans h.length
  words offset ha hf k := by
    obtain ⟨h1, h2⟩ := h.words offset ha hf k
    obtain ⟨h3, h4⟩ := h'.words offset ha (h.length ▸ hf) k
    exact ⟨h3.trans h1, h4.trans h2⟩

theorem SameCodeBits.pointerCode_iff {bytes bytes' : List Byte} (h : SameCodeBits bytes bytes')
    {offset : Nat} : PointerCode bytes' offset ↔ PointerCode bytes offset := by
  constructor
  · rintro ⟨h1, h2, h3⟩
    rw [h.length] at h2
    refine ⟨h1, h2, fun k hk => ?_⟩
    rw [← (h.words (offset + k * 4) (by omega) (by omega) k).1]
    exact h3 k hk
  · rintro ⟨h1, h2, h3⟩
    refine ⟨h1, by rw [h.length]; exact h2, fun k hk => ?_⟩
    rw [(h.words (offset + k * 4) (by omega) (by omega) k).1]
    exact h3 k hk

theorem expectedBase_inj : ∀ j < 4, ∀ k < 4,
    (expectedBase j ||| (BitVec.ofNat 32 j <<< 21)) &&& 0xFFE00000#32 =
      (expectedBase k ||| (BitVec.ofNat 32 k <<< 21)) &&& 0xFFE00000#32 → j = k := by decide

/-- The words that move different halfwords are different. -/
theorem isPointerWord_inj {word : BitVec 32} {j k : Nat} (hj : j < 4) (hk : k < 4)
    (h : isPointerWord word j = true) (h' : isPointerWord word k = true) : j = k := by
  simp only [isPointerWord, Bool.and_eq_true, beq_iff_eq] at h h'
  exact expectedBase_inj j hj k hk (h.1.symm.trans h'.1)

/-- Two relocations are at the same offset or do not overlap. -/
theorem PointerCode.disjoint {bytes : List Byte} {a b : Nat} (ha : PointerCode bytes a)
    (hb : PointerCode bytes b) (hne : a ≠ b) : a + 16 ≤ b ∨ b + 16 ≤ a := by
  by_contra hover
  have h1 := ha.aligned
  have h2 := hb.aligned
  rcases Nat.lt_or_ge a b with h | h
  · obtain ⟨d, hd⟩ : ∃ d, b = a + d * 4 := ⟨(b - a) / 4, by omega⟩
    have hw := ha.words d (by omega)
    have hw' := hb.words 0 (by decide)
    rw [hd, Nat.zero_mul, Nat.add_zero] at hw'
    have := isPointerWord_inj (by omega) (by decide) hw hw'
    omega
  · obtain ⟨d, hd⟩ : ∃ d, a = b + d * 4 := ⟨(a - b) / 4, by omega⟩
    have hw := hb.words d (by omega)
    have hw' := ha.words 0 (by decide)
    rw [hd, Nat.zero_mul, Nat.add_zero] at hw'
    have := isPointerWord_inj (by omega) (by decide) hw hw'
    omega

theorem length_writePointer (bytes : List Byte) (offset : Nat) (pointer : BitVec 64) :
    (writePointer bytes offset pointer).length = bytes.length := by
  simp [writePointer, List.range_succ]

section

variable {bytes : List Byte} {offset : Nat} {pointer : BitVec 64}

theorem getElem?_writePointer_of_outside (hfits : offset + 16 ≤ bytes.length) {j : Nat}
    (hj : j < offset ∨ offset + 16 ≤ j) : (writePointer bytes offset pointer)[j]? = bytes[j]? := by
  simp only [writePointer, List.range_succ, List.range_zero, List.nil_append, List.foldl_append,
    List.foldl_cons, List.foldl_nil]
  rw [getElem?_writeArmWord (by simp only [length_writeArmWord]; omega), if_neg (by omega),
    getElem?_writeArmWord (by simp only [length_writeArmWord]; omega), if_neg (by omega),
    getElem?_writeArmWord (by simp only [length_writeArmWord]; omega), if_neg (by omega),
    getElem?_writeArmWord (by omega), if_neg (by omega)]

theorem readArmWord_writePointer (hfits : offset + 16 ≤ bytes.length) {k : Nat} (hk : k < 4) :
    readArmWord (writePointer bytes offset pointer) (offset + k * 4) =
      withImmediate (readArmWord bytes (offset + k * 4)) pointer k := by
  have hcase : k = 0 ∨ k = 1 ∨ k = 2 ∨ k = 3 := by omega
  simp only [writePointer, List.range_succ, List.range_zero, List.nil_append, List.foldl_append,
    List.foldl_cons, List.foldl_nil]
  rcases hcase with rfl | rfl | rfl | rfl
  · rw [readArmWord_writeArmWord_of_disjoint (by simp only [length_writeArmWord]; omega) (by omega),
      readArmWord_writeArmWord_of_disjoint (by simp only [length_writeArmWord]; omega) (by omega),
      readArmWord_writeArmWord_of_disjoint (by simp only [length_writeArmWord]; omega) (by omega),
      readArmWord_writeArmWord_self (by omega)]
  · rw [readArmWord_writeArmWord_of_disjoint (by simp only [length_writeArmWord]; omega) (by omega),
      readArmWord_writeArmWord_of_disjoint (by simp only [length_writeArmWord]; omega) (by omega),
      readArmWord_writeArmWord_self (by simp only [length_writeArmWord]; omega)]
  · rw [readArmWord_writeArmWord_of_disjoint (by simp only [length_writeArmWord]; omega) (by omega),
      readArmWord_writeArmWord_self (by simp only [length_writeArmWord]; omega)]
  · rw [readArmWord_writeArmWord_self (by simp only [length_writeArmWord]; omega)]

theorem withImmediate_and_not_mask (word : BitVec 32) (pointer : BitVec 64) (halfword : Nat) :
    withImmediate word pointer halfword &&& ~~~(0xFFFF#32 <<< 5) =
      word &&& ~~~(0xFFFF#32 <<< 5) := by
  apply BitVec.eq_of_getLsbD_eq
  intro i hi
  rw [BitVec.getLsbD_and, BitVec.getLsbD_and, getLsbD_withImmediate _ _ _ hi, BitVec.getLsbD_not,
    getLsbD_immediateMask i hi]
  split
  · next h => simp [h.1, h.2]
  · rfl

theorem sameCodeBits_writePointer (haligned : offset % 4 = 0)
    (hfits : offset + 16 ≤ bytes.length) :
    SameCodeBits bytes (writePointer bytes offset pointer) where
  length := length_writePointer bytes offset pointer
  words other ha hf k := by
    by_cases hin : offset ≤ other ∧ other < offset + 16
    · obtain ⟨d, hd⟩ : ∃ d, other = offset + d * 4 := ⟨(other - offset) / 4, by omega⟩
      rw [hd, readArmWord_writePointer hfits (by omega)]
      exact ⟨isPointerWord_withImmediate _ _ _ _, withImmediate_and_not_mask _ _ _⟩
    · rw [readArmWord_congr fun i hi => getElem?_writePointer_of_outside hfits (by omega)]
      exact ⟨rfl, rfl⟩

theorem pointerAt_writePointer_self (hfits : offset + 16 ≤ bytes.length) :
    pointerAt (writePointer bytes offset pointer) offset = pointer := by
  refine pointerAt_eq fun k hk => ?_
  rw [readArmWord_writePointer hfits hk, immediate_withImmediate]

theorem pointerAt_writePointer_of_disjoint (hfits : offset + 16 ≤ bytes.length) {other : Nat}
    (h : other + 16 ≤ offset ∨ offset + 16 ≤ other) :
    pointerAt (writePointer bytes offset pointer) other = pointerAt bytes other := by
  have hword (k : Nat) (hk : k < 4) :
      readArmWord (writePointer bytes offset pointer) (other + k * 4) =
        readArmWord bytes (other + k * 4) :=
    readArmWord_congr fun i hi => getElem?_writePointer_of_outside hfits (by omega)
  simp only [pointerAt, List.range_succ, List.range_zero, List.nil_append, List.foldl_append,
    List.foldl_cons, List.foldl_nil, hword 0 (by decide), hword 1 (by decide), hword 2 (by decide),
    hword 3 (by decide)]

end

/-- One relocation goes through exactly where the words move a pointer. -/
theorem relocateAt_eq (slide : BitVec 64) (bytes : List Byte) (offset : Nat) :
    (PointerCode bytes offset ∧
      relocateAt slide bytes offset = .ok (writePointer bytes offset (pointerAt bytes offset + slide))) ∨
    (¬PointerCode bytes offset ∧ ∃ message, relocateAt slide bytes offset = .error message) := by
  unfold relocateAt
  split
  · next h =>
    simp only [Bool.or_eq_true, bne_iff_ne, decide_eq_true_eq] at h
    refine .inr ⟨fun hp => ?_, _, rfl⟩
    have := hp.aligned
    have := hp.fits
    omega
  · next h =>
    simp only [Bool.or_eq_true, bne_iff_ne, decide_eq_true_eq, not_or, not_not, not_lt] at h
    split
    · next hw =>
      obtain ⟨k, hk, hbad⟩ := List.any_eq_true.mp hw
      refine .inr ⟨fun hp => ?_, _, rfl⟩
      simp [hp.words k (List.mem_range.mp hk)] at hbad
    · next hw =>
      refine .inl ⟨⟨h.1.1, by omega, fun k hk => ?_⟩, rfl⟩
      by_contra hbad
      exact hw (List.any_eq_true.mpr ⟨k, List.mem_range.mpr hk, by simpa using hbad⟩)

/-- The loop : it goes through exactly if every relocation is one, and shifts a pointer
once for each time its offset is listed. -/
theorem relocateBytes_spec (slide : BitVec 64) : ∀ (offsets : List (BitVec 32)) (bytes : List Byte),
    ((∀ o ∈ offsets, PointerCode bytes o.toNat) ∧ ∃ result,
      relocateBytes slide offsets bytes = .ok result ∧ SameCodeBits bytes result ∧
      (∀ j, (∀ o ∈ offsets, j < o.toNat ∨ o.toNat + 16 ≤ j) → result[j]? = bytes[j]?) ∧
      ∀ o : BitVec 32, PointerCode bytes o.toNat → pointerAt result o.toNat =
        pointerAt bytes o.toNat + BitVec.ofNat 64 (offsets.count o) * slide) ∨
    ((∃ o ∈ offsets, ¬PointerCode bytes o.toNat) ∧
      ∃ message, relocateBytes slide offsets bytes = .error message)
  | [], bytes => .inl ⟨by simp, bytes, rfl, .refl _, fun _ _ => rfl, fun o _ => by simp⟩
  | offset :: offsets, bytes => by
    rcases relocateAt_eq slide bytes offset.toNat with
      ⟨hp, hat⟩ | ⟨hp, message, hat⟩
    · have hsame : SameCodeBits bytes
          (writePointer bytes offset.toNat (pointerAt bytes offset.toNat + slide)) :=
        sameCodeBits_writePointer hp.aligned hp.fits
      rcases relocateBytes_spec slide offsets
          (writePointer bytes offset.toNat (pointerAt bytes offset.toNat + slide)) with
        ⟨hall, result, hrest, hbits, hout, hpointers⟩ | ⟨⟨o, ho, hbad⟩, message, hrest⟩
      · refine .inl ⟨?_, result, ?_, hsame.trans hbits, ?_, ?_⟩
        · intro o ho
          rcases List.mem_cons.mp ho with rfl | ho
          · exact hp
          · exact hsame.pointerCode_iff.mp (hall o ho)
        · rw [relocateBytes, hat]
          exact hrest
        · intro j hj
          rw [hout j fun o ho => hj o (List.mem_cons_of_mem _ ho),
            getElem?_writePointer_of_outside hp.fits (hj offset (by simp))]
        · intro o ho
          rw [hpointers o (hsame.pointerCode_iff.mpr ho)]
          by_cases hoff : offset = o
          · subst hoff
            rw [pointerAt_writePointer_self hp.fits, List.count_cons_self]
            have hsum : BitVec.ofNat 64 (offsets.count offset + 1) =
                BitVec.ofNat 64 (offsets.count offset) + 1#64 := by
              simp [BitVec.ofNat_add]
            rw [hsum, BitVec.add_mul, BitVec.one_mul, BitVec.add_assoc,
              BitVec.add_comm slide]
          · have hne : o.toNat ≠ offset.toNat := fun he => hoff (BitVec.eq_of_toNat_eq he.symm)
            rw [pointerAt_writePointer_of_disjoint hp.fits (ho.disjoint hp hne),
              List.count_cons_of_ne hoff]
      · refine .inr ⟨⟨o, List.mem_cons_of_mem _ ho, fun hok => hbad ?_⟩, message, ?_⟩
        · exact hsame.pointerCode_iff.mpr hok
        · rw [relocateBytes, hat]
          exact hrest
    · refine .inr ⟨⟨offset, by simp, hp⟩, message, ?_⟩
      rw [relocateBytes, hat]

/-! ## Assembled programs -/

theorem getElem?_flatMap_littleEndian {words : List (BitVec 32)} {j : Nat} {word : BitVec 32}
    (h : words[j]? = some word) {i : Nat} (hi : i < 4) :
    (words.flatMap (littleEndian 4))[j * 4 + i]? = some ((word >>> (8 * i)).setWidth 8) := by
  induction words generalizing j with
  | nil => simp at h
  | cons w words ih =>
    rw [List.flatMap_cons]
    cases j with
    | zero =>
      obtain rfl : w = word := by simpa using h
      rw [List.getElem?_append_left (by simp; omega)]
      simp [littleEndian, hi]
    | succ j =>
      rw [List.getElem?_append_right (by simp; omega), length_littleEndian]
      rw [show (j + 1) * 4 + i - 4 = j * 4 + i by omega]
      exact ih (by simpa using h)

/-- The word without its immediate. -/
theorem isPointerWord_base : ∀ k < 4,
    ((expectedBase k ||| (BitVec.ofNat 32 k <<< 21)) ||| 16#32) &&& ~~~(0xFFFF#32 <<< 5) =
        (expectedBase k ||| (BitVec.ofNat 32 k <<< 21)) ||| 16#32 ∧
      isPointerWord ((expectedBase k ||| (BitVec.ofNat 32 k <<< 21)) ||| 16#32) k = true := by
  decide

theorem isPointerWord_pointerWord (value : BitVec 64) {k : Nat} (hk : k < 4) :
    isPointerWord (pointerWord value k) k = true := by
  obtain ⟨hclear, hbase⟩ := isPointerWord_base k hk
  have hword : pointerWord value k =
      withImmediate ((expectedBase k ||| (BitVec.ofNat 32 k <<< 21)) ||| 16#32) value k := by
    rw [withImmediate, hclear, pointerWord, expectedBase, BitVec.or_assoc _ _ 16#32,
      BitVec.or_comm _ 16#32, ← BitVec.or_assoc]
  rw [hword, isPointerWord_withImmediate, hbase]

/-- Every relocation of an assembled program is at the words of a pointer, and each is
listed once. -/
structure Assembled (program : Program) : Prop where
  code : ∀ o ∈ program.pointerRelocations, PointerCode program.bytes o.toNat
  nodup : program.pointerRelocations.Nodup

/-- The relocations of the assembler so far. -/
structure Emitted (words relocations : List (BitVec 32)) : Prop where
  code : ∀ o ∈ relocations, ∃ j value, o.toNat = j * 4 ∧
    ∀ k < 4, words[j + k]? = some (pointerWord value k)
  nodup : relocations.Nodup

theorem Emitted.append {words relocations : List (BitVec 32)} (h : Emitted words relocations)
    (more : List (BitVec 32)) : Emitted (words ++ more) relocations where
  code o ho := by
    obtain ⟨j, value, hj, hk⟩ := h.code o ho
    refine ⟨j, value, hj, fun k hk' => ?_⟩
    have := hk k hk'
    obtain ⟨hlt, -⟩ := List.getElem?_eq_some_iff.mp this
    rw [List.getElem?_append_left hlt, this]
  nodup := h.nodup

theorem Emitted.pointer {words relocations : List (BitVec 32)} (h : Emitted words relocations)
    (value : BitVec 64) (hsmall : words.length ≤ (2 ^ 32 - 1) / 4) :
    Emitted (words ++ pointerWords value)
      (relocations ++ [BitVec.ofNat 32 (words.length * 4)]) where
  code o ho := by
    rcases List.mem_append.mp ho with ho | ho
    · exact (h.append _).code o ho
    · obtain rfl := List.mem_singleton.mp ho
      refine ⟨words.length, value, ?_, fun k hk => ?_⟩
      · rw [BitVec.toNat_ofNat]
        omega
      · rw [List.getElem?_append_right (by omega), Nat.add_sub_cancel_left]
        simp [pointerWords, hk]
  nodup := by
    refine List.nodup_append.mpr ⟨h.nodup, List.nodup_singleton _, fun a ha b hb => ?_⟩
    obtain rfl := List.mem_singleton.mp hb
    rintro rfl
    -- an offset that is listed lies before the words that are new
    obtain ⟨j, value, hj, hk⟩ := h.code _ ha
    obtain ⟨hlt, -⟩ := List.getElem?_eq_some_iff.mp (hk 0 (by decide))
    rw [BitVec.toNat_ofNat] at hj
    omega

theorem assemble_spec : ∀ (emissions : List Emission) {words relocations : List (BitVec 32)}
    {program : Program}, Emitted words relocations →
    assemble emissions words relocations = .ok program →
    Assembled program ∧ (emissions ≠ [] ∨ words ≠ [] → program.bytes ≠ [])
  | [], words, relocations, program, h, hp => by
    obtain rfl : _ = program := by simpa [assemble] using hp
    refine ⟨⟨fun o ho => ?_, h.nodup⟩, ?_⟩
    · obtain ⟨j, value, hj, hk⟩ := h.code o ho
      obtain ⟨hlt, -⟩ := List.getElem?_eq_some_iff.mp (hk 3 (by decide))
      refine ⟨by omega, ?_, fun k hk' => ?_⟩
      · rw [length_flatMap_littleEndian]
        omega
      · rw [readArmWord_eq fun i hi => ?_]
        · exact isPointerWord_pointerWord value hk'
        · rw [hj, ← Nat.add_mul]
          exact getElem?_flatMap_littleEndian (hk k hk') hi
    · rintro (hne | hne)
      · exact absurd rfl hne
      · cases words with
        | nil => exact absurd rfl hne
        | cons w words => simp [littleEndian, List.range_succ]
  | .word value :: emissions, words, relocations, program, h, hp => by
    obtain ⟨h1, h2⟩ := assemble_spec emissions (h.append [value]) hp
    exact ⟨h1, fun _ => h2 (.inr (by simp))⟩
  | .pointer value :: emissions, words, relocations, program, h, hp => by
    rw [assemble] at hp
    split at hp
    · cases hp
    · next hsmall =>
      obtain ⟨h1, h2⟩ := assemble_spec emissions (h.pointer value (by omega)) hp
      exact ⟨h1, fun _ => h2 (.inr (by simp [pointerWords, List.range_succ]))⟩

end Rosa
