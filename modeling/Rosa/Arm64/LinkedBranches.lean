import Rosa.Arm64.MoveWords

/-!
# Branches and their labels

The branches and labels of `arm64/Assembler.cpp` and `Assembler::finish`, which puts the distance
to its label into every branch. `Traced` is what the assembler knows of the calls that were made,
kept by every call (`Traced.effect`). A program that `finish` returns has, for each branch, a word
that AArch64 decodes to that branch with the distance to its label, and all other words as they
were emitted; `finish` throws only if a label is not bound or too far away
(`finish_afterCalls`).
-/

namespace Rosa.Arm64

open Rosa.Computation

/-! ## The assembler -/

/-- `FixupKind`. -/
inductive FixupKind
  | branch26 | compareBranch19 | testBranch14
  deriving DecidableEq, Repr

/-- `Fixup`. -/
structure Fixup where
  kind : FixupKind
  wordIndex : Nat
  label : Label
  deriving DecidableEq, Repr

/-- `Assembler`, without its listing. -/
structure Assembler where
  words : List (BitVec 32) := []
  labelPositions : List (Option Nat) := []
  fixups : List Fixup := []
  pointerRelocations : List (BitVec 32) := []

/-- A call of the assembler. -/
abbrev Assembling (α : Type) := Computation Assembler String α

/-- The number of words a vector can hold. -/
def maximumWords : Nat := 2 ^ 62 - 1

/-- `emit`. -/
def emit (word : BitVec 32) : Assembling Unit := do
  let a ← get
  raiseIf (decide (maximumWords ≤ a.words.length)) "vector"
  modify fun a => { a with words := a.words ++ [word] }

/-- `emit` of several words, one by one. -/
def emitAll : List (BitVec 32) → Assembling Unit
  | [] => pure ()
  | word :: words => do
    emit word
    emitAll words

/-- `emitFixup`. -/
def emitFixup (word : BitVec 32) (kind : FixupKind) (label : Label) : Assembling Unit := do
  let a ← get
  emit word
  modify fun b => { b with fixups := b.fixups ++ [⟨kind, a.words.length, label⟩] }

/-- `requireRegister`. -/
def requireRegister (reg : XRegister) : Assembling Unit :=
  raiseIf (decide (30 < reg.val)) "ARM64 general-purpose register must be x0...x30"

/-- `movImmediate` of a constant. -/
def Assembler.movImmediate (destination : XRegister) (value : BitVec 64) : Assembling Unit := do
  requireRegister destination
  emitAll (moveWords destination value)

/-- The word that moves a halfword of a pointer. -/
def pointerMoveWord (destination : XRegister) (pointer : BitVec 64) (halfword : Nat) : BitVec 32 :=
  (if halfword = 0 then 0xD2800000#32 else 0xF2800000#32) ||| (BitVec.ofNat 32 halfword <<< 21) |||
    ((halfwordOf pointer halfword).setWidth 32 <<< 5) ||| BitVec.ofNat 32 destination

/-- `movImmediate` of a relocatable pointer. The vectors are far from full here, so that nothing
has to be taken back. -/
def movPointer (destination : XRegister) (pointer : BitVec 64) : Assembling Unit := do
  requireRegister destination
  let a ← get
  raiseIf (decide ((2 ^ 32 - 1) / 4 < a.words.length)) "ARM64 pointer relocation offset overflows"
  modify fun a =>
    { a with
      words := a.words ++ (List.range 4).map (pointerMoveWord destination pointer)
      pointerRelocations := a.pointerRelocations ++ [BitVec.ofNat 32 (a.words.length * 4)] }

/-- `makeLabel`. -/
def makeLabel : Assembling Label := do
  let a ← get
  raiseIf (decide (2 ^ 32 - 1 < a.labelPositions.length))
    "ARM64 label identifier space is exhausted"
  modify fun a => { a with labelPositions := a.labelPositions ++ [none] }
  pure a.labelPositions.length

/-- `bind`. -/
def bindLabel (label : Label) : Assembling Unit := do
  let a ← get
  match a.labelPositions[label]? with
  | none => raise "cannot bind an unknown ARM64 label"
  | some (some _) => raise "cannot bind an ARM64 label twice"
  | some none =>
    modify fun a => { a with labelPositions := a.labelPositions.set label (some a.words.length) }

/-- A branch, without its label. -/
inductive Branch
  | b
  | cbz (value : XRegister)
  | cbnz (value : XRegister)
  | bConditional (condition : BranchCondition)
  | tbz (value : XRegister) (bit : BitVec 8)
  | tbnz (value : XRegister) (bit : BitVec 8)
  deriving DecidableEq, Repr

/-- The encoding of a condition. -/
def BranchCondition.encoding : BranchCondition → BitVec 4
  | equal => 0
  | notEqual => 1
  | unsignedHigherOrSame => 2
  | unsignedLower => 3
  | negative => 4
  | nonNegative => 5
  | overflow => 6
  | noOverflow => 7
  | unsignedHigher => 8
  | unsignedLowerOrSame => 9
  | signedGreaterOrEqual => 10
  | signedLess => 11
  | signedGreater => 12
  | signedLessOrEqual => 13

/-- The word of a test branch. -/
def testBranchWord (base : BitVec 32) (value : XRegister) (bit : BitVec 8) : BitVec 32 :=
  base ||| ((bit >>> 5).setWidth 32 <<< 31) ||| ((bit &&& 0x1F#8).setWidth 32 <<< 19) |||
    BitVec.ofNat 32 value

/-- The word that is emitted, with no displacement. -/
def Branch.word : Branch → BitVec 32
  | b => 0x14000000#32
  | cbz value => 0xB4000000#32 ||| BitVec.ofNat 32 value
  | cbnz value => 0xB5000000#32 ||| BitVec.ofNat 32 value
  | bConditional condition => 0x54000000#32 ||| condition.encoding.setWidth 32
  | tbz value bit => testBranchWord 0x36000000#32 value bit
  | tbnz value bit => testBranchWord 0x37000000#32 value bit

/-- The kind of the branch's fixup. -/
def Branch.kind : Branch → FixupKind
  | b => .branch26
  | cbz _ | cbnz _ | bConditional _ => .compareBranch19
  | tbz _ _ | tbnz _ _ => .testBranch14

/-- Fail unless the label was made. -/
def requireLabel (label : Label) (message : String) : Assembling Unit := do
  let a ← get
  raiseIf (decide (a.labelPositions.length ≤ label)) message

/-- The checks of a branch. -/
def Branch.require (label : Label) : Branch → Assembling Unit
  | b => requireLabel label "cannot branch to an unknown ARM64 label"
  | cbz value | cbnz value => do
    requireRegister value
    requireLabel label "cannot compare-branch to an unknown ARM64 label"
  | bConditional _ => requireLabel label "cannot conditionally branch to an unknown ARM64 label"
  | tbz value bit => do
    requireRegister value
    raiseIf (decide (64 ≤ bit.toNat)) "invalid TBZ operand or label"
    requireLabel label "invalid TBZ operand or label"
  | tbnz value bit => do
    requireRegister value
    raiseIf (decide (64 ≤ bit.toNat)) "invalid TBNZ operand or label"
    requireLabel label "invalid TBNZ operand or label"

/-- `b`, `cbz`, `cbnz`, `bConditional`, `tbz` and `tbnz`. -/
def branch (fields : Branch) (label : Label) : Assembling Unit := do
  fields.require label
  emitFixup fields.word fields.kind label

/-- The displacements that a kind of branch can hold. -/
def FixupKind.InRange (kind : FixupKind) (displacement : Int) : Prop :=
  match kind with
  | .branch26 => -2 ^ 25 ≤ displacement ∧ displacement ≤ 2 ^ 25 - 1
  | .compareBranch19 => -2 ^ 18 ≤ displacement ∧ displacement ≤ 2 ^ 18 - 1
  | .testBranch14 => -2 ^ 13 ≤ displacement ∧ displacement ≤ 2 ^ 13 - 1

instance (kind : FixupKind) (displacement : Int) : Decidable (kind.InRange displacement) := by
  cases kind <;> exact inferInstanceAs (Decidable (_ ∧ _))

/-- The bits of the displacement, in their place in the word. -/
def FixupKind.field (kind : FixupKind) (displacement : Int) : BitVec 32 :=
  match kind with
  | .branch26 => BitVec.ofInt 32 displacement &&& 0x03FFFFFF#32
  | .compareBranch19 => (BitVec.ofInt 32 displacement &&& 0x7FFFF#32) <<< 5
  | .testBranch14 => (BitVec.ofInt 32 displacement &&& 0x3FFF#32) <<< 5

/-- What `finish` says of a displacement that does not fit. -/
def FixupKind.message : FixupKind → String
  | branch26 => "ARM64 B target is out of range"
  | compareBranch19 => "ARM64 compare-branch target is out of range"
  | testBranch14 => "ARM64 test-branch target is out of range"

/-- The turn of `finish` for one fixup. -/
def resolve (labelPositions : List (Option Nat)) (fixup : Fixup) (words : List (BitVec 32)) :
    Except String (List (BitVec 32)) :=
  match labelPositions[fixup.label]? with
  | some (some target) =>
    let displacement : Int := target - fixup.wordIndex
    if fixup.kind.InRange displacement then
      .ok (words.modify fixup.wordIndex (· ||| fixup.kind.field displacement))
    else .error fixup.kind.message
  | _ => .error "ARM64 branch targets an unbound label"

/-- The loop of `finish`. -/
def resolveAll (labelPositions : List (Option Nat)) :
    List Fixup → List (BitVec 32) → Except String (List (BitVec 32))
  | [], words => .ok words
  | fixup :: fixups, words =>
    match resolve labelPositions fixup words with
    | .ok words => resolveAll labelPositions fixups words
    | .error e => .error e

/-- `finish`. -/
def Assembler.finish (a : Assembler) : Except String Program :=
  if 2 ^ 63 - 1 < a.words.length then .error "ARM64 program is too large to resolve branches"
  else
    match resolveAll a.labelPositions a.fixups a.words with
    | .error e => .error e
    | .ok words =>
      if (2 ^ 64 - 1) / 4 < words.length then .error "ARM64 program byte size overflows"
      else .ok ⟨words.flatMap (littleEndian 4), a.pointerRelocations⟩

/-! ## Sequences of calls -/

/-- A call of the assembler. The instructions that need no fixup are words. -/
inductive AssemblerCall
  | emit (word : BitVec 32)
  | movImmediate (destination : XRegister) (value : BitVec 64)
  | movPointer (destination : XRegister) (pointer : BitVec 64)
  | makeLabel
  | bind (label : Label)
  | branch (fields : Branch) (label : Label)

/-- What a call does. -/
def AssemblerCall.run : AssemblerCall → Assembling Unit
  | emit word => Arm64.emit word
  | movImmediate destination value => Assembler.movImmediate destination value
  | movPointer destination pointer => Arm64.movPointer destination pointer
  | makeLabel => do
    let _ ← Arm64.makeLabel
    pure ()
  | bind label => bindLabel label
  | branch fields label => Arm64.branch fields label

/-- The assembler after a sequence of calls, those that throw among them. -/
def afterCalls (calls : List AssemblerCall) : Assembler :=
  calls.foldl (fun a call => (call.run a).2) {}

/-- The call is one of the sequence, it returned, and `i` words had been emitted before it. -/
def ReturnedAt (calls : List AssemblerCall) (call : AssemblerCall) (i : Nat) : Prop :=
  ∃ before after, calls = before ++ call :: after ∧ (call.run (afterCalls before)).1 = .ok () ∧
    (afterCalls before).words.length = i

/-! ### What the branch words mean -/

/-- The condition with an encoding. -/
def BranchCondition.decode (encoding : BitVec 4) : Option BranchCondition :=
  [equal, notEqual, unsignedHigherOrSame, unsignedLower, negative, nonNegative, overflow,
    noOverflow, unsignedHigher, unsignedLowerOrSame, signedGreaterOrEqual, signedLess,
    signedGreater, signedLessOrEqual][encoding.toNat]?

/-- The branch that a word is, with its displacement in words. -/
def decodeBranch (word : BitVec 32) : Option (Branch × Int) :=
  let value : XRegister := (word.extractLsb' 0 5).toFin
  if word.extractLsb' 26 6 = 0b000101#6 then some (.b, (word.extractLsb' 0 26).toInt)
  else if word.extractLsb' 24 8 = 0b10110100#8 then
    some (.cbz value, (word.extractLsb' 5 19).toInt)
  else if word.extractLsb' 24 8 = 0b10110101#8 then
    some (.cbnz value, (word.extractLsb' 5 19).toInt)
  else if word.extractLsb' 24 8 = 0b01010100#8 ∧ word.extractLsb' 4 1 = 0#1 then
    (BranchCondition.decode (word.extractLsb' 0 4)).map fun condition =>
      (.bConditional condition, (word.extractLsb' 5 19).toInt)
  else if word.extractLsb' 25 6 = 0b011011#6 then
    let bit := (word.extractLsb' 31 1).setWidth 8 <<< 5 ||| (word.extractLsb' 19 5).setWidth 8
    some (if word.extractLsb' 24 1 = 0#1 then .tbz value bit else .tbnz value bit,
      (word.extractLsb' 5 14).toInt)
  else none

/-- Where the displacement begins in the word. -/
def FixupKind.low : FixupKind → Nat
  | branch26 => 0
  | compareBranch19 | testBranch14 => 5

/-- How many bits the displacement has. -/
def FixupKind.width : FixupKind → Nat
  | branch26 => 26
  | compareBranch19 => 19
  | testBranch14 => 14

theorem setWidth_ofInt {n : Nat} (hn : n = 26 ∨ n = 19 ∨ n = 14) (displacement : Int) :
    (BitVec.ofInt 32 displacement).setWidth n = BitVec.ofInt n displacement := by
  refine BitVec.eq_of_toNat_eq ?_
  rcases hn with rfl | rfl | rfl
  all_goals
    simp only [BitVec.toNat_setWidth, BitVec.toNat_ofInt, Nat.reducePow, Nat.cast_ofNat]
    omega

theorem FixupKind.getLsbD_field (kind : FixupKind) (displacement : Int) {i : Nat} (hi : i < 32) :
    (kind.field displacement).getLsbD i =
      (decide (kind.low ≤ i ∧ i < kind.low + kind.width) &&
        (BitVec.ofInt kind.width displacement).getLsbD (i - kind.low)) := by
  have hmask26 : ∀ j < 32, (0x03FFFFFF#32).getLsbD j = decide (j < 26) := by decide
  have hmask19 : ∀ j < 32, (0x7FFFF#32).getLsbD j = decide (j < 19) := by decide
  have hmask14 : ∀ j < 32, (0x3FFF#32).getLsbD j = decide (j < 14) := by decide
  have hshort {n : Nat} (hn : n = 26 ∨ n = 19 ∨ n = 14) {j : Nat} (hj : j < n) :
      (BitVec.ofInt 32 displacement).getLsbD j = (BitVec.ofInt n displacement).getLsbD j := by
    rw [← setWidth_ofInt hn, BitVec.getLsbD_setWidth]
    simp [hj]
  cases kind with
  | branch26 =>
    simp only [field, low, width, BitVec.getLsbD_and, hmask26 i hi, Nat.zero_le, true_and,
      Nat.zero_add, Nat.sub_zero]
    by_cases h : i < 26
    · simp [-BitVec.getLsbD_eq_getElem, h, hshort (.inl rfl) h]
    · simp [-BitVec.getLsbD_eq_getElem, h]
  | compareBranch19 =>
    simp only [field, low, width, BitVec.getLsbD_shiftLeft, BitVec.getLsbD_and,
      hmask19 (i - 5) (by omega), hi, decide_true, Bool.true_and]
    by_cases h : 5 ≤ i ∧ i < 24
    · simp [-BitVec.getLsbD_eq_getElem, h.1, h.2, show ¬i < 5 by omega, show i - 5 < 19 by omega,
        hshort (.inr (.inl rfl)) (show i - 5 < 19 by omega)]
    · have : i < 5 ∨ ¬i - 5 < 19 := by omega
      rcases this with h' | h' <;> simp [-BitVec.getLsbD_eq_getElem, h, h']
  | testBranch14 =>
    simp only [field, low, width, BitVec.getLsbD_shiftLeft, BitVec.getLsbD_and,
      hmask14 (i - 5) (by omega), hi, decide_true, Bool.true_and]
    by_cases h : 5 ≤ i ∧ i < 19
    · simp [-BitVec.getLsbD_eq_getElem, h.1, h.2, show ¬i < 5 by omega, show i - 5 < 14 by omega,
        hshort (.inr (.inr rfl)) (show i - 5 < 14 by omega)]
    · have : i < 5 ∨ ¬i - 5 < 14 := by omega
      rcases this with h' | h' <;> simp [-BitVec.getLsbD_eq_getElem, h, h']

section

variable {word : BitVec 32} {kind : FixupKind} {displacement : Int} {start len : Nat}

/-- The displacement is where it belongs. -/
theorem extract_field (kind : FixupKind) (hword : ∀ i < kind.width, word.getLsbD (kind.low + i) = false) :
    (word ||| kind.field displacement).extractLsb' kind.low kind.width =
      BitVec.ofInt kind.width displacement := by
  have hfits : kind.low + kind.width ≤ 32 := by cases kind <;> decide
  refine BitVec.eq_of_getLsbD_eq fun i hi => ?_
  rw [BitVec.getLsbD_extractLsb', BitVec.getLsbD_or, hword i hi,
    kind.getLsbD_field displacement (by omega)]
  simp [hi]

/-- The other fields are as they were. -/
theorem extract_outside (kind : FixupKind) (start len : Nat)
    (hout : start + len ≤ kind.low ∨ kind.low + kind.width ≤ start)
    (hlen : start + len ≤ 32) :
    (word ||| kind.field displacement).extractLsb' start len = word.extractLsb' start len := by
  refine BitVec.eq_of_getLsbD_eq fun i hi => ?_
  rw [BitVec.getLsbD_extractLsb', BitVec.getLsbD_extractLsb', BitVec.getLsbD_or,
    kind.getLsbD_field displacement (by omega)]
  have : ¬(kind.low ≤ start + i ∧ start + i < kind.low + kind.width) := by omega
  simp [this]

theorem toInt_ofInt_of_inRange (h : kind.InRange displacement) :
    (BitVec.ofInt kind.width displacement).toInt = displacement := by
  rw [BitVec.toInt_ofInt]
  cases kind with
  | branch26 =>
    obtain ⟨h1, h2⟩ := h
    exact Int.bmod_eq_of_le (by simp [FixupKind.width]; omega) (by simp [FixupKind.width]; omega)
  | compareBranch19 =>
    obtain ⟨h1, h2⟩ := h
    exact Int.bmod_eq_of_le (by simp [FixupKind.width]; omega) (by simp [FixupKind.width]; omega)
  | testBranch14 =>
    obtain ⟨h1, h2⟩ := h
    exact Int.bmod_eq_of_le (by simp [FixupKind.width]; omega) (by simp [FixupKind.width]; omega)

end

/-- The operands that the checks let through. -/
def Branch.Valid : Branch → Prop
  | b | bConditional _ => True
  | cbz value | cbnz value => value ≠ 31
  | tbz value bit | tbnz value bit => value ≠ 31 ∧ bit.toNat < 64

theorem getLsbD_testBranchWord (base : BitVec 32) (value : XRegister) (bit : BitVec 8) {i : Nat}
    (hi : i < 32) : (testBranchWord base value bit).getLsbD i =
      (base.getLsbD i || (decide (i = 31) && bit.getLsbD 5) ||
        (decide (19 ≤ i ∧ i < 24) && bit.getLsbD (i - 19)) ||
        (decide (i < 5) && (BitVec.ofNat 5 value.val).getLsbD i)) := by
  have hmask : ∀ j < 8, (0x1F#8).getLsbD j = decide (j < 5) := by decide
  have hvalue : (BitVec.ofNat 32 value.val).getLsbD i =
      (decide (i < 5) && (BitVec.ofNat 5 value.val).getLsbD i) := by
    by_cases h : i < 5
    · simp [-BitVec.getLsbD_eq_getElem, BitVec.getLsbD_ofNat, h, hi]
    · simp [h, getLsbD_destination value (show 5 ≤ i by omega)]
  have hhigh : ((bit >>> 5).setWidth 32 <<< 31).getLsbD i = (decide (i = 31) && bit.getLsbD 5) := by
    by_cases h : i = 31
    · subst h
      simp [-BitVec.getLsbD_eq_getElem]
    · simp [-BitVec.getLsbD_eq_getElem, h, show i < 31 by omega]
  have hlow : ((bit &&& 0x1F#8).setWidth 32 <<< 19).getLsbD i =
      (decide (19 ≤ i ∧ i < 24) && bit.getLsbD (i - 19)) := by
    simp only [BitVec.getLsbD_shiftLeft, BitVec.getLsbD_setWidth, BitVec.getLsbD_and, hi,
      decide_true, Bool.true_and]
    by_cases h : 19 ≤ i ∧ i < 24
    · simp [-BitVec.getLsbD_eq_getElem, h.1, h.2, show ¬i < 19 by omega,
        hmask (i - 19) (by omega), show i - 19 < 32 by omega, show i - 19 < 5 by omega]
    · rcases Nat.lt_or_ge i 19 with h' | h'
      · simp [h', show ¬19 ≤ i by omega]
      · rcases Nat.lt_or_ge (i - 19) 8 with h8 | h8
        · simp [-BitVec.getLsbD_eq_getElem, h, hmask (i - 19) h8, show ¬i - 19 < 5 by omega]
        · simp [h, BitVec.getLsbD_of_ge _ _ h8]
  simp only [testBranchWord, BitVec.getLsbD_or, hvalue, hhigh, hlow]

/-- The fields of a test branch. -/
theorem testBranchWord_fields (base : BitVec 32) (value : XRegister) {bit : BitVec 8}
    (hbase : base = 0x36000000#32 ∨ base = 0x37000000#32) (hbit : bit.toNat < 64) :
    (testBranchWord base value bit).extractLsb' 0 5 = BitVec.ofNat 5 value.val ∧
      ((testBranchWord base value bit).extractLsb' 31 1).setWidth 8 <<< 5 |||
        ((testBranchWord base value bit).extractLsb' 19 5).setWidth 8 = bit ∧
      (testBranchWord base value bit).extractLsb' 24 1 = base.extractLsb' 24 1 ∧
      (testBranchWord base value bit).extractLsb' 25 6 = 0b011011#6 ∧
      ∀ i < 14, (testBranchWord base value bit).getLsbD (5 + i) = false := by
  have hzero : ∀ i < 24, base.getLsbD i = false := by rcases hbase with rfl | rfl <;> decide
  have hhigh : base.getLsbD 31 = false := by rcases hbase with rfl | rfl <;> decide
  have hcode : ∀ i < 6, base.getLsbD (25 + i) = (0b011011#6).getLsbD i := by
    rcases hbase with rfl | rfl <;> decide
  have hbig : ∀ i, 6 ≤ i → bit.getLsbD i = false := fun i hi => by
    rw [BitVec.getLsbD, Nat.testBit_lt_two_pow]
    exact Nat.lt_of_lt_of_le hbit (Nat.pow_le_pow_right (by decide) hi : 2 ^ 6 ≤ 2 ^ i)
  refine ⟨?_, ?_, ?_, ?_, fun i hi => ?_⟩
  · refine BitVec.eq_of_getLsbD_eq fun i hi => ?_
    rw [BitVec.getLsbD_extractLsb', Nat.zero_add, getLsbD_testBranchWord _ _ _ (by omega)]
    simp [-BitVec.getLsbD_eq_getElem, hi, hzero i (by omega), show i ≠ 31 by omega,
      show ¬19 ≤ i by omega]
  · refine BitVec.eq_of_getLsbD_eq fun i hi => ?_
    simp only [BitVec.getLsbD_or, BitVec.getLsbD_shiftLeft, BitVec.getLsbD_setWidth,
      BitVec.getLsbD_extractLsb', hi, decide_true, Bool.true_and]
    by_cases h5 : i = 5
    · subst h5
      rw [getLsbD_testBranchWord _ _ _ (by decide)]
      simp [-BitVec.getLsbD_eq_getElem, hhigh]
    · by_cases hlt : i < 5
      · rw [getLsbD_testBranchWord _ _ _ (show 19 + i < 32 by omega)]
        simp [-BitVec.getLsbD_eq_getElem, hlt, hzero (19 + i) (by omega),
          show 19 + i ≠ 31 by omega, show 19 + i < 24 by omega, show ¬19 + i < 5 by omega]
      · simp [-BitVec.getLsbD_eq_getElem, hlt, show ¬i - 5 < 1 by omega, hbig i (by omega)]
  · refine BitVec.eq_of_getLsbD_eq fun i hi => ?_
    obtain rfl : i = 0 := by omega
    rw [BitVec.getLsbD_extractLsb', BitVec.getLsbD_extractLsb',
      getLsbD_testBranchWord _ _ _ (by decide)]
    simp [-BitVec.getLsbD_eq_getElem]
  · refine BitVec.eq_of_getLsbD_eq fun i hi => ?_
    rw [BitVec.getLsbD_extractLsb', getLsbD_testBranchWord _ _ _ (by omega), hcode i hi]
    simp [-BitVec.getLsbD_eq_getElem, hi, show ¬25 + i = 31 by omega, show ¬25 + i < 24 by omega,
      show ¬25 + i < 5 by omega]
  · rw [getLsbD_testBranchWord _ _ _ (by omega), hzero (5 + i) (by omega)]
    simp [-BitVec.getLsbD_eq_getElem, show ¬5 + i = 31 by omega, show ¬19 ≤ 5 + i by omega,
      show ¬5 + i < 5 by omega]

section

variable {base : BitVec 32} {value : XRegister} {start len : Nat}

theorem extract_above_register (hstart : 5 ≤ start) :
    (base ||| BitVec.ofNat 32 value.val).extractLsb' start len = base.extractLsb' start len :=
  extract_or_above fun _ hi => getLsbD_destination value (hstart.trans hi)

theorem extract_register (hbase : ∀ i < 5, base.getLsbD i = false) :
    (base ||| BitVec.ofNat 32 value.val).extractLsb' 0 5 = BitVec.ofNat 5 value.val := by
  refine BitVec.eq_of_getLsbD_eq fun i hi => ?_
  simp [-BitVec.getLsbD_eq_getElem, BitVec.getLsbD_extractLsb', BitVec.getLsbD_ofNat, hi,
    hbase i hi, show i < 32 by omega]

theorem toFin_register (value : XRegister) : (BitVec.ofNat 5 value.val).toFin = value :=
  Fin.ext (Nat.mod_eq_of_lt value.isLt)

end

/-- The fields of a compare branch with its displacement. -/
theorem compareBranch_fields {base : BitVec 32} (value : XRegister)
    (hbase : base = 0xB4000000#32 ∨ base = 0xB5000000#32) (displacement : Int) :
    (base ||| BitVec.ofNat 32 value.val |||
        FixupKind.field .compareBranch19 displacement).extractLsb' 0 5 =
      BitVec.ofNat 5 value.val ∧
    (base ||| BitVec.ofNat 32 value.val |||
        FixupKind.field .compareBranch19 displacement).extractLsb' 5 19 =
      BitVec.ofInt 19 displacement ∧
    (base ||| BitVec.ofNat 32 value.val |||
        FixupKind.field .compareBranch19 displacement).extractLsb' 24 8 =
      base.extractLsb' 24 8 ∧
    (base ||| BitVec.ofNat 32 value.val |||
        FixupKind.field .compareBranch19 displacement).extractLsb' 26 6 = 0b101101#6 := by
  have hzero : ∀ i < 24, base.getLsbD i = false := by rcases hbase with rfl | rfl <;> decide
  refine ⟨?_, ?_, ?_, ?_⟩
  · rw [extract_outside _ _ _ (.inl (by decide)) (by decide)]
    exact extract_register fun i hi => hzero i (by omega)
  · refine extract_field .compareBranch19 fun i (hi : i < 19) => ?_
    show (base ||| BitVec.ofNat 32 value.val).getLsbD (5 + i) = false
    rw [BitVec.getLsbD_or, hzero (5 + i) (by omega), getLsbD_destination value (by omega), Bool.or_false]
  · rw [extract_outside _ _ _ (.inr (by decide)) (by decide), extract_above_register (by decide)]
  · rw [extract_outside _ _ _ (.inr (by decide)) (by decide), extract_above_register (by decide)]
    rcases hbase with rfl | rfl <;> decide

/-- A test branch with its displacement decodes to its fields. -/
theorem decodeBranch_testBranch {base : BitVec 32} (value : XRegister) {bit : BitVec 8}
    (hbase : base = 0x36000000#32 ∨ base = 0x37000000#32) (hbit : bit.toNat < 64)
    {displacement : Int} (h : FixupKind.testBranch14.InRange displacement) :
    decodeBranch (testBranchWord base value bit ||| FixupKind.field .testBranch14 displacement) =
      some (if base.extractLsb' 24 1 = 0#1 then .tbz value bit else .tbnz value bit,
        displacement) := by
  have hint : (BitVec.ofInt 14 displacement).toInt = displacement := toInt_ofInt_of_inRange h
  obtain ⟨h1, h2, h3, h4, h5⟩ := testBranchWord_fields base value hbase hbit
  have hfield : (testBranchWord base value bit |||
      FixupKind.field .testBranch14 displacement).extractLsb' 5 14 =
      BitVec.ofInt 14 displacement := extract_field .testBranch14 h5
  -- the bits that tell the word from those of the other branches
  have h25 : (testBranchWord base value bit).getLsbD 25 = true := by
    simpa [-BitVec.getLsbD_eq_getElem, BitVec.getLsbD_extractLsb'] using
      congrArg (fun v : BitVec 6 => v.getLsbD 0) h4
  have h29 : (testBranchWord base value bit).getLsbD 29 = true := by
    simpa [-BitVec.getLsbD_eq_getElem, BitVec.getLsbD_extractLsb'] using
      congrArg (fun v : BitVec 6 => v.getLsbD 4) h4
  have hother6 : (testBranchWord base value bit).extractLsb' 26 6 ≠ 0b000101#6 := by
    intro he
    have := congrArg (fun v : BitVec 6 => v.getLsbD 3) he
    simp [-BitVec.getLsbD_eq_getElem, BitVec.getLsbD_extractLsb', h29] at this
  have hother8 (code : BitVec 8) (hcode : code.getLsbD 1 = false) :
      (testBranchWord base value bit).extractLsb' 24 8 ≠ code := by
    rintro rfl
    simp [-BitVec.getLsbD_eq_getElem, BitVec.getLsbD_extractLsb', h25] at hcode
  simp only [decodeBranch, hfield,
    extract_outside .testBranch14 26 6 (.inr (by decide)) (by decide),
    extract_outside .testBranch14 24 8 (.inr (by decide)) (by decide),
    extract_outside .testBranch14 25 6 (.inr (by decide)) (by decide),
    extract_outside .testBranch14 24 1 (.inr (by decide)) (by decide),
    extract_outside .testBranch14 31 1 (.inr (by decide)) (by decide),
    extract_outside .testBranch14 19 5 (.inr (by decide)) (by decide),
    extract_outside .testBranch14 0 5 (.inl (by decide)) (by decide),
    h1, h2, h3, h4, hother6, hother8 0b10110100#8 (by decide), hother8 0b10110101#8 (by decide),
    hother8 0b01010100#8 (by decide), toFin_register, hint]
  simp

/-- A branch word with its displacement decodes to the branch and the displacement. -/
theorem decodeBranch_word {fields : Branch} (hvalid : fields.Valid) {displacement : Int}
    (h : fields.kind.InRange displacement) :
    decodeBranch (fields.word ||| fields.kind.field displacement) =
      some (fields, displacement) := by
  have hint := toInt_ofInt_of_inRange h
  cases fields with
  | b =>
    have hfield : (Branch.word .b ||| FixupKind.field .branch26 displacement).extractLsb' 0 26 =
        BitVec.ofInt 26 displacement := extract_field .branch26 (by decide)
    have hcode : (Branch.word .b ||| FixupKind.field .branch26 displacement).extractLsb' 26 6 =
        0b000101#6 := by
      rw [extract_outside _ _ _ (.inr (by decide)) (by decide)]
      decide
    simp only [decodeBranch, Branch.kind, hcode, if_true, hfield]
    rw [show (BitVec.ofInt 26 displacement).toInt = displacement from hint]
  | cbz value =>
    obtain ⟨h1, h2, h3, h4⟩ := compareBranch_fields value (.inl rfl) displacement
    simp only [decodeBranch, Branch.word, Branch.kind, h1, h2, h3, h4, toFin_register]
    rw [show (BitVec.ofInt 19 displacement).toInt = displacement from hint]
    simp
  | cbnz value =>
    obtain ⟨h1, h2, h3, h4⟩ := compareBranch_fields value (.inr rfl) displacement
    simp only [decodeBranch, Branch.word, Branch.kind, h1, h2, h3, h4, toFin_register]
    rw [show (BitVec.ofInt 19 displacement).toInt = displacement from hint]
    simp
  | bConditional condition =>
    have hfields : (Branch.word (.bConditional condition)).extractLsb' 26 6 = 0b010101#6 ∧
        (Branch.word (.bConditional condition)).extractLsb' 24 8 = 0b01010100#8 ∧
        (Branch.word (.bConditional condition)).extractLsb' 4 1 = 0#1 ∧
        BranchCondition.decode ((Branch.word (.bConditional condition)).extractLsb' 0 4) =
          some condition ∧
        ∀ i < 19, (Branch.word (.bConditional condition)).getLsbD (5 + i) = false := by
      cases condition <;> decide
    obtain ⟨h1, h2, h3, h4, h5⟩ := hfields
    have hfield : (Branch.word (.bConditional condition) |||
        FixupKind.field .compareBranch19 displacement).extractLsb' 5 19 =
        BitVec.ofInt 19 displacement := extract_field .compareBranch19 h5
    simp only [decodeBranch, Branch.kind, hfield,
      extract_outside .compareBranch19 26 6 (.inr (by decide))
        (by decide),
      extract_outside .compareBranch19 24 8 (.inr (by decide))
        (by decide),
      extract_outside .compareBranch19 4 1 (.inl (by decide))
        (by decide),
      extract_outside .compareBranch19 0 4 (.inl (by decide))
        (by decide), h1, h2, h3, h4]
    rw [show (BitVec.ofInt 19 displacement).toInt = displacement from hint]
    simp
  | tbz value bit => exact decodeBranch_testBranch value (.inl rfl) hvalid.2 h
  | tbnz value bit => exact decodeBranch_testBranch value (.inr rfl) hvalid.2 h

/-! ### What a call does -/

/-- What a call that returns has done. -/
inductive CallEffect (a : Assembler) : AssemblerCall → Assembler → Prop
  | emitted (word : BitVec 32) (more : List (BitVec 32)) (hmore : more = [word]) :
      CallEffect a (.emit word) { a with words := a.words ++ more }
  | moved (destination : XRegister) (value : BitVec 64) (hregister : destination ≠ 31) :
      CallEffect a (.movImmediate destination value)
        { a with words := a.words ++ moveWords destination value }
  | pointed (destination : XRegister) (pointer : BitVec 64) (more relocations : List (BitVec 32)) :
      CallEffect a (.movPointer destination pointer)
        { a with words := a.words ++ more, pointerRelocations := relocations }
  | labelled : CallEffect a .makeLabel { a with labelPositions := a.labelPositions ++ [none] }
  | bound (label : Label) (hfree : a.labelPositions[label]? = some none) :
      CallEffect a (.bind label)
        { a with labelPositions := a.labelPositions.set label (some a.words.length) }
  | branched (fields : Branch) (label : Label) (hvalid : fields.Valid) :
      CallEffect a (.branch fields label)
        { a with
          words := a.words ++ [fields.word]
          fixups := a.fixups ++ [⟨fields.kind, a.words.length, label⟩] }

/-- The assembler has only written some words. -/
def OnlyWrote (a a' : Assembler) : Prop := ∃ more, a' = { a with words := a.words ++ more }

theorem OnlyWrote.refl (a : Assembler) : OnlyWrote a a := ⟨[], by simp⟩

theorem emit_spec (a : Assembler) (word : BitVec 32) :
    Post (emit word) a (fun _ a' => a' = { a with words := a.words ++ [word] } ∧
        a.words.length < maximumWords)
      fun _ a' => a' = a := by
  unfold emit
  refine Post.bind (Post.get (Post.bind (Post.raiseIf (fun _ => rfl) fun hroom => ?_)))
  exact Post.modify ⟨rfl, by simpa using hroom⟩

theorem emitAll_spec : ∀ (words : List (BitVec 32)) (a : Assembler),
    a.words.length ≤ maximumWords →
    Post (emitAll words) a (fun _ a' => a' = { a with words := a.words ++ words } ∧
        a'.words.length ≤ maximumWords)
      fun _ a' => OnlyWrote a a' ∧ a'.words.length ≤ maximumWords
  | [], a, hsize => Post.pure ⟨by simp, hsize⟩
  | word :: words, a, hsize => by
    rw [emitAll]
    refine Post.bind (Post.mono (emit_spec a word) ?_ ?_)
    · rintro _ _ ⟨rfl, hroom⟩
      refine Post.mono (emitAll_spec words _ (by simpa using hroom)) ?_ ?_
      · rintro _ _ ⟨rfl, hsize'⟩
        exact ⟨by simp, hsize'⟩
      · rintro _ _ ⟨⟨more, rfl⟩, hsize'⟩
        exact ⟨⟨word :: more, by simp⟩, hsize'⟩
    · rintro _ _ rfl
      exact ⟨.refl _, hsize⟩

theorem emitFixup_spec (a : Assembler) (word : BitVec 32) (kind : FixupKind) (label : Label) :
    Post (emitFixup word kind label) a
      (fun _ a' => a' =
          { a with
            words := a.words ++ [word]
            fixups := a.fixups ++ [⟨kind, a.words.length, label⟩] } ∧
        a.words.length < maximumWords)
      fun _ a' => a' = a := by
  unfold emitFixup
  refine Post.bind (Post.get (Post.bind (Post.mono (emit_spec a word) ?_ fun _ _ h => h)))
  rintro _ _ ⟨rfl, hroom⟩
  exact Post.modify ⟨rfl, hroom⟩

theorem requireRegister_spec (a : Assembler) (reg : XRegister) :
    Post (requireRegister reg) a (fun _ a' => a' = a ∧ reg ≠ 31) fun _ a' => a' = a := by
  refine Post.raiseIf (fun _ => rfl) fun h => ⟨rfl, ?_⟩
  rintro rfl
  simp at h

theorem requireLabel_spec (a : Assembler) (label : Label) (message : String) :
    Post (requireLabel label message) a (fun _ a' => a' = a) fun _ a' => a' = a :=
  Post.bind (Post.get (Post.raiseIf (fun _ => rfl) fun _ => rfl))

theorem require_spec (a : Assembler) (label : Label) (fields : Branch) :
    Post (fields.require label) a (fun _ a' => a' = a ∧ fields.Valid) fun _ a' => a' = a := by
  have htest {value : XRegister} {bit : BitVec 8} (message : String) :
      Post (requireRegister value >>= fun _ =>
          raiseIf (decide (64 ≤ bit.toNat)) message >>= fun _ => requireLabel label message) a
        (fun _ a' => a' = a ∧ value ≠ 31 ∧ bit.toNat < 64) fun _ a' => a' = a := by
    refine Post.bind (Post.mono (requireRegister_spec a value) ?_ fun _ _ h => h)
    rintro _ _ ⟨rfl, hvalue⟩
    refine Post.bind (Post.raiseIf (fun _ => rfl) fun hbit => ?_)
    refine Post.mono (requireLabel_spec _ label message) ?_ fun _ _ h => h
    rintro _ _ rfl
    exact ⟨rfl, hvalue, by simpa using hbit⟩
  have hcompare {value : XRegister} (message : String) :
      Post (requireRegister value >>= fun _ => requireLabel label message) a
        (fun _ a' => a' = a ∧ value ≠ 31) fun _ a' => a' = a := by
    refine Post.bind (Post.mono (requireRegister_spec a value) ?_ fun _ _ h => h)
    rintro _ _ ⟨rfl, hvalue⟩
    exact Post.mono (requireLabel_spec _ label message) (fun _ _ h => ⟨h, hvalue⟩) fun _ _ h => h
  cases fields with
  | b => exact Post.mono (requireLabel_spec a label _) (fun _ _ h => ⟨h, trivial⟩) fun _ _ h => h
  | cbz value => exact hcompare _
  | cbnz value => exact hcompare _
  | bConditional condition =>
    exact Post.mono (requireLabel_spec a label _) (fun _ _ h => ⟨h, trivial⟩) fun _ _ h => h
  | tbz value bit => exact htest _
  | tbnz value bit => exact htest _

/-- One call. -/
theorem run_spec {a : Assembler} (hsize : a.words.length ≤ maximumWords) (call : AssemblerCall) :
    Post call.run a (fun _ a' => CallEffect a call a' ∧ a'.words.length ≤ maximumWords)
      fun _ a' => OnlyWrote a a' ∧ a'.words.length ≤ maximumWords := by
  have hkept {a' : Assembler} (h : a' = a) : OnlyWrote a a' ∧ a'.words.length ≤ maximumWords := by
    subst h
    exact ⟨.refl _, hsize⟩
  cases call with
  | emit word =>
    refine Post.mono (emit_spec a word) ?_ fun _ _ h => hkept h
    rintro _ _ ⟨rfl, hroom⟩
    exact ⟨.emitted word _ rfl, by simpa using hroom⟩
  | movImmediate destination value =>
    refine Post.bind (Post.mono (requireRegister_spec a destination) ?_ fun _ _ h => hkept h)
    rintro _ _ ⟨rfl, hregister⟩
    refine Post.mono (emitAll_spec _ _ hsize) ?_ fun _ _ h => h
    rintro _ _ ⟨rfl, hsize'⟩
    exact ⟨.moved destination value hregister, hsize'⟩
  | movPointer destination pointer =>
    refine Post.bind (Post.mono (requireRegister_spec a destination) ?_ fun _ _ h => hkept h)
    rintro _ _ ⟨rfl, hregister⟩
    refine Post.bind (Post.get (Post.bind (Post.raiseIf (fun _ => hkept rfl) fun hsmall => ?_)))
    refine Post.modify ⟨.pointed destination pointer _ _, ?_⟩
    simp only [decide_eq_false_iff_not, not_lt] at hsmall
    simp only [List.length_append, List.length_map, List.length_range, maximumWords]
    omega
  | makeLabel =>
    refine Post.bind (Post.bind (Post.get (Post.bind (Post.raiseIf (fun _ => hkept rfl)
      fun _ => ?_))))
    exact Post.bind (Post.modify (Post.pure (Post.pure ⟨.labelled, hsize⟩)))
  | bind label =>
    refine Post.bind (Post.get ?_)
    cases hlabel : a.labelPositions[label]? with
    | none => exact Post.raise (hkept rfl)
    | some position =>
      cases position with
      | some position => exact Post.raise (hkept rfl)
      | none => exact Post.modify ⟨.bound label hlabel, hsize⟩
  | branch fields label =>
    refine Post.bind (Post.mono (require_spec a label fields) ?_ fun _ _ h => hkept h)
    rintro _ _ ⟨rfl, hvalid⟩
    refine Post.mono (emitFixup_spec _ _ _ _) ?_ fun _ _ h => hkept h
    rintro _ _ ⟨rfl, hroom⟩
    exact ⟨.branched fields label hvalid, by simpa using hroom⟩

/-! ### What a sequence of calls does -/

/-- What the assembler knows of the branches that were emitted and the labels that were bound. -/
structure Traced (returned : AssemblerCall → Nat → Prop) (a : Assembler) : Prop where
  fixup : ∀ f ∈ a.fixups, ∃ fields, returned (.branch fields f.label) f.wordIndex ∧
    f.kind = fields.kind
  branch : ∀ fields label i, returned (.branch fields label) i →
    ⟨fields.kind, i, label⟩ ∈ a.fixups ∧ a.words[i]? = some fields.word ∧ fields.Valid
  position : ∀ label target, a.labelPositions[label]? = some (some target) ↔
    returned (.bind label) target
  apart : a.fixups.Pairwise fun f g => f.wordIndex ≠ g.wordIndex

variable {returned returned' : AssemblerCall → Nat → Prop} {a a' : Assembler}
  {call : AssemblerCall}

/-- Words after the others change nothing. -/
theorem Traced.write (h : Traced returned a) (more relocations : List (BitVec 32))
    (hbranch : ∀ fields label i, returned' (.branch fields label) i ↔
      returned (.branch fields label) i)
    (hbind : ∀ label target, returned' (.bind label) target ↔ returned (.bind label) target) :
    Traced returned' { a with words := a.words ++ more, pointerRelocations := relocations } where
  fixup f hf := by
    obtain ⟨fields, hr, hkind⟩ := h.fixup f hf
    exact ⟨fields, (hbranch _ _ _).mpr hr, hkind⟩
  branch fields label i hr := by
    obtain ⟨hmem, hword, hvalid⟩ := h.branch fields label i ((hbranch _ _ _).mp hr)
    obtain ⟨hlt, -⟩ := List.getElem?_eq_some_iff.mp hword
    exact ⟨hmem, (List.getElem?_append_left hlt).trans hword, hvalid⟩
  position label target := (h.position label target).trans (hbind label target).symm
  apart := h.apart

theorem Traced.effect (h : Traced returned a) (he : CallEffect a call a') :
    Traced (fun c i => returned c i ∨ c = call ∧ i = a.words.length) a' := by
  cases he with
  | emitted word more _ =>
    exact h.write more a.pointerRelocations (fun _ _ _ => by simp) fun _ _ => by simp
  | moved destination value _ =>
    exact h.write _ a.pointerRelocations (fun _ _ _ => by simp) fun _ _ => by simp
  | pointed destination pointer more relocations =>
    exact h.write more relocations (fun _ _ _ => by simp) fun _ _ => by simp
  | labelled =>
    refine ⟨fun f hf => ?_, fun fields label i hr => ?_, fun label target => ?_, h.apart⟩
    · obtain ⟨fields, hr, hkind⟩ := h.fixup f hf
      exact ⟨fields, .inl hr, hkind⟩
    · exact h.branch fields label i (by simpa using hr)
    · have hnew : (a.labelPositions ++ [none])[label]? = some (some target) ↔
          a.labelPositions[label]? = some (some target) := by
        rw [List.getElem?_append]
        split
        · rfl
        · next hlt =>
          rw [List.getElem?_eq_none (not_lt.mp hlt)]
          cases label - a.labelPositions.length <;> simp
      simpa using hnew.trans (h.position label target)
  | bound label hfree =>
    refine ⟨fun f hf => ?_, fun fields l i hr => ?_, fun l target => ?_, h.apart⟩
    · obtain ⟨fields, hr, hkind⟩ := h.fixup f hf
      exact ⟨fields, .inl hr, hkind⟩
    · exact h.branch fields l i (by simpa using hr)
    · obtain ⟨hlt, -⟩ := List.getElem?_eq_some_iff.mp hfree
      have hold := h.position l target
      rw [List.getElem?_set]
      by_cases hl : label = l
      · subst hl
        have hnot : ¬returned (.bind label) target := fun hr => by
          rw [hold.mpr hr] at hfree
          cases hfree
        simp [hlt, hnot, eq_comm]
      · have hne : ¬l = label := fun he => hl he.symm
        simpa [hl, hne] using hold
  | branched fields label hvalid =>
    refine ⟨fun f hf => ?_, fun fields' l i hr => ?_, fun l target => ?_, ?_⟩
    · rcases List.mem_append.mp hf with hf | hf
      · obtain ⟨fields, hr, hkind⟩ := h.fixup f hf
        exact ⟨fields, .inl hr, hkind⟩
      · obtain rfl := List.mem_singleton.mp hf
        exact ⟨fields, .inr ⟨rfl, rfl⟩, rfl⟩
    · rcases hr with hr | ⟨hcall, rfl⟩
      · obtain ⟨hmem, hword, hvalid'⟩ := h.branch fields' l i hr
        obtain ⟨hlt, -⟩ := List.getElem?_eq_some_iff.mp hword
        exact ⟨List.mem_append_left _ hmem, (List.getElem?_append_left hlt).trans hword, hvalid'⟩
      · obtain ⟨rfl, rfl⟩ := AssemblerCall.branch.inj hcall
        exact ⟨by simp, by simp, hvalid⟩
    · simpa using h.position l target
    · refine List.pairwise_append.mpr ⟨h.apart, List.pairwise_singleton _ _, fun f hf g hg => ?_⟩
      obtain rfl := List.mem_singleton.mp hg
      -- the words of the fixups so far are there, the new one is behind them
      obtain ⟨fields', hr, -⟩ := h.fixup f hf
      obtain ⟨hlt, -⟩ := List.getElem?_eq_some_iff.mp (h.branch _ _ _ hr).2.1
      exact Nat.ne_of_lt hlt

theorem returnedAt_append (calls : List AssemblerCall) (call c : AssemblerCall) (i : Nat) :
    ReturnedAt (calls ++ [call]) c i ↔ ReturnedAt calls c i ∨
      c = call ∧ (call.run (afterCalls calls)).1 = .ok () ∧ (afterCalls calls).words.length = i := by
  constructor
  · rintro ⟨before, after, heq, hok, hi⟩
    rcases List.eq_nil_or_concat after with rfl | ⟨after', last, rfl⟩
    · obtain ⟨rfl, hcall⟩ := List.append_inj' heq rfl
      obtain rfl : call = c := by simpa using hcall
      exact .inr ⟨rfl, hok, hi⟩
    · rw [List.concat_eq_append, ← List.cons_append, ← List.append_assoc] at heq
      obtain ⟨rfl, -⟩ := List.append_inj' heq rfl
      exact .inl ⟨before, after', rfl, hok, hi⟩
  · rintro (⟨before, after, rfl, hok, hi⟩ | ⟨rfl, hok, hi⟩)
    · exact ⟨before, after ++ [call], by simp, hok, hi⟩
    · exact ⟨calls, [], rfl, hok, hi⟩

theorem afterCalls_append (calls : List AssemblerCall) (call : AssemblerCall) :
    afterCalls (calls ++ [call]) = (call.run (afterCalls calls)).2 := by
  simp [afterCalls]

/-- The assembler after any sequence of calls. -/
theorem traced_afterCalls (calls : List AssemblerCall) :
    Traced (ReturnedAt calls) (afterCalls calls) ∧
      (afterCalls calls).words.length ≤ maximumWords := by
  induction calls using List.reverseRecOn with
  | nil =>
    have hnone (call : AssemblerCall) (i : Nat) : ¬ReturnedAt [] call i := by
      rintro ⟨before, after, heq, -⟩
      simp at heq
    exact ⟨⟨by simp [afterCalls], fun _ _ _ hr => absurd hr (hnone _ _),
      fun _ _ => by simp [afterCalls, hnone], by simp [afterCalls]⟩, by simp [afterCalls]⟩
  | append_singleton calls call ih =>
    obtain ⟨htraced, hsize⟩ := ih
    have hspec := run_spec hsize call
    rw [afterCalls_append]
    unfold Post at hspec
    rcases hrun : call.run (afterCalls calls) with ⟨_ | _, a'⟩
    · -- a call that throws has only written words
      rw [hrun] at hspec
      obtain ⟨⟨more, rfl⟩, hsize'⟩ := hspec
      refine ⟨htraced.write more (afterCalls calls).pointerRelocations (fun _ _ _ => ?_)
        fun _ _ => ?_, hsize'⟩
      all_goals
        rw [returnedAt_append, hrun]
        simp
    · rw [hrun] at hspec
      obtain ⟨heffect, hsize'⟩ := hspec
      have hreturned : ReturnedAt (calls ++ [call]) = fun c i =>
          ReturnedAt calls c i ∨ c = call ∧ i = (afterCalls calls).words.length := by
        funext c i
        rw [returnedAt_append, hrun]
        simp [eq_comm]
      rw [hreturned]
      exact ⟨htraced.effect heffect, hsize'⟩

/-! ### Resolved branches -/

section

variable {positions : List (Option Nat)} {fixup : Fixup} {words words' : List (BitVec 32)}
  {message : String}

/-- The fixup has a bound label whose distance fits. -/
def Resolvable (positions : List (Option Nat)) (fixup : Fixup) (target : Nat) : Prop :=
  positions[fixup.label]? = some (some target) ∧
    fixup.kind.InRange ((target : Int) - fixup.wordIndex)

theorem resolve_ok (h : resolve positions fixup words = .ok words') :
    ∃ target, Resolvable positions fixup target ∧ words' = words.modify fixup.wordIndex
      (· ||| fixup.kind.field ((target : Int) - fixup.wordIndex)) := by
  unfold resolve at h
  cases hposition : positions[fixup.label]? with
  | none =>
    rw [hposition] at h
    cases h
  | some position =>
    cases position with
    | none =>
      rw [hposition] at h
      cases h
    | some target =>
      rw [hposition] at h
      dsimp only at h
      by_cases hrange : fixup.kind.InRange ((target : Int) - fixup.wordIndex)
      · rw [if_pos hrange] at h
        exact ⟨target, ⟨hposition, hrange⟩, (Except.ok.inj h).symm⟩
      · rw [if_neg hrange] at h
        cases h

theorem resolve_error (h : resolve positions fixup words = .error message) (target : Nat) :
    ¬Resolvable positions fixup target := by
  rintro ⟨hposition, hrange⟩
  unfold resolve at h
  rw [hposition] at h
  dsimp only at h
  rw [if_pos hrange] at h
  cases h

theorem resolveAll_error : ∀ (fixups : List Fixup) {words : List (BitVec 32)},
    resolveAll positions fixups words = .error message →
      ∃ f ∈ fixups, ∀ target, ¬Resolvable positions f target
  | [], _, h => by cases h
  | fixup :: fixups, words, h => by
    rw [resolveAll] at h
    cases hfirst : resolve positions fixup words with
    | error e => exact ⟨fixup, List.mem_cons_self, resolve_error hfirst⟩
    | ok words1 =>
      rw [hfirst] at h
      obtain ⟨f, hf, hnot⟩ := resolveAll_error fixups h
      exact ⟨f, List.mem_cons_of_mem _ hf, hnot⟩

theorem resolveAll_ok : ∀ (fixups : List Fixup) {words : List (BitVec 32)},
    (fixups.Pairwise fun f g => f.wordIndex ≠ g.wordIndex) →
    resolveAll positions fixups words = .ok words' →
      (∀ f ∈ fixups, ∃ target, Resolvable positions f target ∧
        words'[f.wordIndex]? = (words[f.wordIndex]?).map
          (· ||| f.kind.field ((target : Int) - f.wordIndex))) ∧
      (∀ i, (∀ f ∈ fixups, f.wordIndex ≠ i) → words'[i]? = words[i]?) ∧
      words'.length = words.length
  | [], words, _, h => by
    obtain rfl : words = words' := Except.ok.inj h
    exact ⟨by simp, fun _ _ => rfl, rfl⟩
  | fixup :: fixups, words, hapart, h => by
    obtain ⟨hfirst, hrest⟩ := List.pairwise_cons.mp hapart
    rw [resolveAll] at h
    cases hresolve : resolve positions fixup words with
    | error e =>
      rw [hresolve] at h
      cases h
    | ok words1 =>
      rw [hresolve] at h
      obtain ⟨target, hresolvable, rfl⟩ := resolve_ok hresolve
      obtain ⟨hall, hothers, hlength⟩ := resolveAll_ok fixups hrest h
      refine ⟨fun f hf => ?_, fun i hi => ?_, by rw [hlength, List.length_modify]⟩
      · rcases List.mem_cons.mp hf with rfl | hf
        · refine ⟨target, hresolvable, ?_⟩
          rw [hothers _ fun g hg => (hfirst g hg).symm, List.getElem?_modify_eq]
          rfl
        · obtain ⟨target', hresolvable', hword⟩ := hall f hf
          refine ⟨target', hresolvable', ?_⟩
          rw [hword, List.getElem?_modify_ne _ _ (hfirst f hf)]
      · rw [hothers i fun g hg => hi g (List.mem_cons_of_mem _ hg),
          List.getElem?_modify_ne _ _ (hi fixup List.mem_cons_self)]

end

/-- What `finish` makes of a sequence of calls : every branch goes to its label, and all other
words are as they were emitted. -/
structure Links (calls : List AssemblerCall) (program : Program) : Prop where
  size : program.bytes.length = (afterCalls calls).words.length * 4
  branches : ∀ fields label i, ReturnedAt calls (.branch fields label) i →
    ∃ target, ReturnedAt calls (.bind label) target ∧
      decodeBranch (readArmWord program.bytes (i * 4)) = some (fields, (target : Int) - i)
  others : ∀ i word, (afterCalls calls).words[i]? = some word →
    (∀ fields label, ¬ReturnedAt calls (.branch fields label) i) →
      readArmWord program.bytes (i * 4) = word

/-- Some branch has a label that is not bound, or too far away. -/
def Unlinkable (calls : List AssemblerCall) : Prop :=
  ∃ fields label i, ReturnedAt calls (.branch fields label) i ∧
    ∀ target, ReturnedAt calls (.bind label) target →
      ¬fields.kind.InRange ((target : Int) - i)

theorem readArmWord_program {words : List (BitVec 32)} {i : Nat} {word : BitVec 32}
    (h : words[i]? = some word) : readArmWord (words.flatMap (littleEndian 4)) (i * 4) = word :=
  readArmWord_eq fun _ hj => getElem?_flatMap_littleEndian h hj

theorem finish_afterCalls (calls : List AssemblerCall) :
    (∃ program, (afterCalls calls).finish = .ok program ∧ Links calls program) ∨
      ∃ message, (afterCalls calls).finish = .error message ∧ Unlinkable calls := by
  obtain ⟨htraced, hsize⟩ := traced_afterCalls calls
  have hsmall : ¬2 ^ 63 - 1 < (afterCalls calls).words.length := by
    unfold maximumWords at hsize
    omega
  unfold Assembler.finish
  rw [if_neg hsmall]
  cases hresolved : resolveAll (afterCalls calls).labelPositions (afterCalls calls).fixups
      (afterCalls calls).words with
  | error message =>
    refine .inr ⟨message, rfl, ?_⟩
    obtain ⟨f, hf, hnot⟩ := resolveAll_error _ hresolved
    obtain ⟨fields, hr, hkind⟩ := htraced.fixup f hf
    refine ⟨fields, f.label, f.wordIndex, hr, fun target hbind hrange => ?_⟩
    exact hnot target ⟨(htraced.position _ _).mpr hbind, hkind ▸ hrange⟩
  | ok words =>
    obtain ⟨hall, hothers, hlength⟩ := resolveAll_ok _ htraced.apart hresolved
    have hfits : ¬(2 ^ 64 - 1) / 4 < words.length := by
      rw [hlength]
      unfold maximumWords at hsize
      omega
    dsimp only
    rw [if_neg hfits]
    refine .inl ⟨_, rfl, ?_, fun fields label i hr => ?_, fun i word hword hnone => ?_⟩
    · rw [length_flatMap_littleEndian, hlength]
    · obtain ⟨hmem, hword, hvalid⟩ := htraced.branch fields label i hr
      obtain ⟨target, ⟨hposition, hrange⟩, hnew⟩ := hall _ hmem
      refine ⟨target, (htraced.position label target).mp hposition, ?_⟩
      rw [hword, Option.map_some] at hnew
      rw [readArmWord_program hnew]
      exact decodeBranch_word hvalid hrange
    · refine readArmWord_program ?_
      rw [hothers i fun f hf => ?_, hword]
      rintro rfl
      obtain ⟨fields, hr, -⟩ := htraced.fixup f hf
      exact hnone _ _ hr

/-- A constant is moved by words that leave it in the register, as many as its cost. -/
structure Materializes (destination : XRegister) (value : BitVec 64) (a a' : Assembler) : Prop where
  appended : a'.words = a.words ++ moveWords destination value
  moves : ∀ h : Host, executeMoves h (moveWords destination value) = some (h.set destination value)
  cost : (moveWords destination value).length = constantMaterializationCost value

/-- Constants and branches mean what was asked for : after any sequence of calls, `movImmediate`
of a constant throws or emits moves that leave the constant, and `finish` links the branches
or says that one of them cannot be linked. -/
theorem emitted_afterCalls (calls : List AssemblerCall) :
    (∀ destination value, Post (Assembler.movImmediate destination value) (afterCalls calls)
      (fun _ a' => Materializes destination value (afterCalls calls) a') fun _ _ => True) ∧
    ((∃ program, (afterCalls calls).finish = .ok program ∧ Links calls program) ∨
      ∃ message, (afterCalls calls).finish = .error message ∧ Unlinkable calls) := by
  refine ⟨fun destination value => ?_, finish_afterCalls calls⟩
  refine Post.mono (run_spec (traced_afterCalls calls).2 (.movImmediate destination value)) ?_
    fun _ _ _ => trivial
  rintro _ _ ⟨heffect, -⟩
  cases heffect with
  | moved _ _ hregister =>
    exact ⟨rfl, fun h => executeMoves_moveWords h hregister value, length_moveWords _ _⟩

end Rosa.Arm64
