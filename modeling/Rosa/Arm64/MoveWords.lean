import Rosa.Arm64.RegisterAssignment
import Rosa.Dbt.Relocation

/-!
# The words of a constant

`Assembler::movImmediate` of a constant emits a `MOVZ` or a `MOVN` and a `MOVK` for each further
halfword that is not the fill. With the meaning AArch64 gives the words they leave the constant
in the register (`executeMoves_moveWords`), and they are as many as `constantMaterializationCost`
of `arm64/Backend.cpp` says (`length_moveWords`).
-/

namespace Rosa.Arm64

/-! ## The moves of a constant -/

/-- What a `MOVN`, `MOVZ` or `MOVK` of a 64-bit register does. -/
def executeMove (h : Host) (word : BitVec 32) : Option Host :=
  let destination : XRegister := (word.extractLsb' 0 5).toFin
  let shift := 16 * (word.extractLsb' 21 2).toNat
  let immediate := (word.extractLsb' 5 16).setWidth 64 <<< shift
  -- register 31 is the zero register
  let write (v : BitVec 64) := if destination = 31 then h else h.set destination v
  if word.extractLsb' 31 1 = 1#1 ∧ word.extractLsb' 23 6 = 0b100101#6 then
    if word.extractLsb' 29 2 = 0b00#2 then some (write (~~~immediate))
    else if word.extractLsb' 29 2 = 0b10#2 then some (write immediate)
    else if word.extractLsb' 29 2 = 0b11#2 then
      some (write ((h.x destination &&& ~~~(0xFFFF#64 <<< shift)) ||| immediate))
    else none
  else none

/-- The words in order. -/
def executeMoves (h : Host) : List (BitVec 32) → Option Host
  | [] => some h
  | word :: words => (executeMove h word).bind fun h' => executeMoves h' words

/-- A halfword of a constant. -/
def halfwordOf (value : BitVec 64) (halfword : Nat) : BitVec 16 :=
  ((value >>> (16 * halfword)) &&& 0xFFFF#64).setWidth 16

/-- How many halfwords of the constant are not the given one. -/
def countOther (value : BitVec 64) (fill : BitVec 16) : Nat :=
  (List.range 4).countP fun halfword => halfwordOf value halfword != fill

/-- `useMovn`. -/
def useMovn (value : BitVec 64) : Bool := countOther value 0xFFFF#16 < countOther value 0

/-- `fill`. -/
def fillOf (movn : Bool) : BitVec 16 := if movn then 0xFFFF#16 else 0

/-- The constant that is all `fill`. -/
def filled (movn : Bool) : BitVec 64 := if movn then 0xFFFFFFFFFFFFFFFF#64 else 0

/-- The word of one halfword. -/
def moveWord (emittedFirst movn : Bool) (destination : XRegister) (value : BitVec 64)
    (halfword : Nat) : BitVec 32 :=
  let desired := halfwordOf value halfword
  let immediate := if movn && !emittedFirst then ~~~desired else desired
  let base :=
    if emittedFirst then 0xF2800000#32 else if movn then 0x92800000#32 else 0xD2800000#32
  base ||| (BitVec.ofNat 32 halfword <<< 21) ||| (immediate.setWidth 32 <<< 5) |||
    BitVec.ofNat 32 destination

/-- The loop of `movImmediate` over the halfwords that are left. -/
def moveWordsFrom (movn : Bool) (destination : XRegister) (value : BitVec 64) :
    Nat → Nat → Bool → List (BitVec 32)
  | 0, _, _ => []
  | count + 1, halfword, emittedFirst =>
    if halfwordOf value halfword == fillOf movn && (emittedFirst || value != filled movn) then
      moveWordsFrom movn destination value count (halfword + 1) emittedFirst
    else
      moveWord emittedFirst movn destination value halfword ::
        moveWordsFrom movn destination value count (halfword + 1) true

/-- The words that `movImmediate` emits. -/
def moveWords (destination : XRegister) (value : BitVec 64) : List (BitVec 32) :=
  moveWordsFrom (useMovn value) destination value 4 0 false

/-! ### The fields of a move -/

section

variable {base : BitVec 32} {immediate : BitVec 16} {destination : XRegister} {k : Nat}

theorem getLsbD_destination (destination : XRegister) {i : Nat} (hi : 5 ≤ i) :
    (BitVec.ofNat 32 destination.val).getLsbD i = false := by
  rw [BitVec.getLsbD_ofNat]
  have : destination.val < 2 ^ i :=
    Nat.lt_of_lt_of_le destination.isLt (Nat.pow_le_pow_right (by decide) hi : 2 ^ 5 ≤ 2 ^ i)
  simp [Nat.testBit_lt_two_pow this]

/-- The fields above all bits of the lower word. -/
theorem extract_or_above {high low : BitVec 32} {start len : Nat}
    (hlow : ∀ i, start ≤ i → low.getLsbD i = false) :
    (high ||| low).extractLsb' start len = high.extractLsb' start len := by
  refine BitVec.eq_of_getLsbD_eq fun i hi => ?_
  rw [BitVec.getLsbD_extractLsb', BitVec.getLsbD_extractLsb', BitVec.getLsbD_or,
    hlow (start + i) (Nat.le_add_right _ _), Bool.or_false]

/-- The fields above the immediate. -/
theorem extract_above {start len : Nat} (hstart : 21 ≤ start) :
    (base ||| (immediate.setWidth 32 <<< 5) ||| BitVec.ofNat 32 destination.val).extractLsb'
      start len = base.extractLsb' start len := by
  rw [extract_or_above fun i hi => getLsbD_destination destination (by omega)]
  refine extract_or_above fun i hi => ?_
  have hlarge : immediate.getLsbD (i - 5) = false := BitVec.getLsbD_of_ge _ _ (by omega)
  simp [-BitVec.getLsbD_eq_getElem, hlarge]

theorem extract_immediate (hbase : ∀ i < 21, base.getLsbD i = false) :
    (base ||| (immediate.setWidth 32 <<< 5) ||| BitVec.ofNat 32 destination.val).extractLsb' 5 16 =
      immediate := by
  refine BitVec.eq_of_getLsbD_eq fun i hi => ?_
  have hd := getLsbD_destination destination (show 5 ≤ 5 + i by omega)
  simp [-BitVec.getLsbD_eq_getElem, BitVec.getLsbD_extractLsb', hi, hd, hbase (5 + i) (by omega), show 5 + i < 32 by omega,
    show i < 32 by omega]

theorem extract_destination (hbase : ∀ i < 21, base.getLsbD i = false) :
    ((base ||| (immediate.setWidth 32 <<< 5) ||| BitVec.ofNat 32 destination.val).extractLsb' 0
      5).toFin = destination := by
  have : (base ||| (immediate.setWidth 32 <<< 5) ||| BitVec.ofNat 32 destination.val).extractLsb' 0
      5 = BitVec.ofNat 5 destination.val := by
    refine BitVec.eq_of_getLsbD_eq fun i hi => ?_
    simp [-BitVec.getLsbD_eq_getElem, BitVec.getLsbD_extractLsb', BitVec.getLsbD_ofNat, hi,
      hbase i (by omega), show i < 32 by omega]
  rw [this]
  exact Fin.ext (Nat.mod_eq_of_lt destination.isLt)

end

theorem executeMove_first (h : Host) {destination : XRegister} (hd : destination ≠ 31)
    (movn : Bool) (value : BitVec 64) {k : Nat} (hk : k < 4) :
    executeMove h (moveWord false movn destination value k) =
      some (h.set destination (if movn
        then ~~~((~~~halfwordOf value k).setWidth 64 <<< (16 * k))
        else (halfwordOf value k).setWidth 64 <<< (16 * k))) := by
  have hbase : ∀ k < 4, ∀ movn : Bool, ∀ i < 21, ((if movn then 0x92800000#32 else 0xD2800000#32) |||
      (BitVec.ofNat 32 k <<< 21)).getLsbD i = false := by decide
  have hfields : ∀ k < 4, ∀ movn : Bool,
      ((if movn then 0x92800000#32 else 0xD2800000#32) ||| (BitVec.ofNat 32 k <<< 21)).extractLsb'
        31 1 = 1#1 ∧
      ((if movn then 0x92800000#32 else 0xD2800000#32) ||| (BitVec.ofNat 32 k <<< 21)).extractLsb'
        23 6 = 0b100101#6 ∧
      ((if movn then 0x92800000#32 else 0xD2800000#32) ||| (BitVec.ofNat 32 k <<< 21)).extractLsb'
        21 2 = BitVec.ofNat 2 k ∧
      ((if movn then 0x92800000#32 else 0xD2800000#32) ||| (BitVec.ofNat 32 k <<< 21)).extractLsb'
        29 2 = if movn then 0b00#2 else 0b10#2 := by decide
  obtain ⟨h1, h2, h3, h4⟩ := hfields k hk movn
  have hshift : (BitVec.ofNat 2 k).toNat = k := Nat.mod_eq_of_lt hk
  simp only [executeMove, moveWord, Bool.false_eq_true, if_false, Bool.not_false, Bool.and_true,
    extract_above (show 21 ≤ 31 by decide), extract_above (show 21 ≤ 23 by decide),
    extract_above (show 21 ≤ 21 by decide), extract_above (show 21 ≤ 29 by decide),
    extract_immediate (hbase k hk movn), extract_destination (hbase k hk movn), h1, h2, h3, h4,
    hshift, hd]
  cases movn <;> simp

theorem executeMove_next (h : Host) {destination : XRegister} (hd : destination ≠ 31)
    (movn : Bool) (value : BitVec 64) {k : Nat} (hk : k < 4) :
    executeMove h (moveWord true movn destination value k) =
      some (h.set destination ((h.x destination &&& ~~~(0xFFFF#64 <<< (16 * k))) |||
        (halfwordOf value k).setWidth 64 <<< (16 * k))) := by
  have hbase : ∀ k < 4, ∀ i < 21,
      (0xF2800000#32 ||| (BitVec.ofNat 32 k <<< 21)).getLsbD i = false := by decide
  have hfields : ∀ k < 4,
      (0xF2800000#32 ||| (BitVec.ofNat 32 k <<< 21)).extractLsb' 31 1 = 1#1 ∧
      (0xF2800000#32 ||| (BitVec.ofNat 32 k <<< 21)).extractLsb' 23 6 = 0b100101#6 ∧
      (0xF2800000#32 ||| (BitVec.ofNat 32 k <<< 21)).extractLsb' 21 2 = BitVec.ofNat 2 k ∧
      (0xF2800000#32 ||| (BitVec.ofNat 32 k <<< 21)).extractLsb' 29 2 = 0b11#2 := by decide
  obtain ⟨h1, h2, h3, h4⟩ := hfields k hk
  have hshift : (BitVec.ofNat 2 k).toNat = k := Nat.mod_eq_of_lt hk
  simp only [executeMove, moveWord, if_true, Bool.not_true, Bool.and_false, Bool.false_eq_true,
    if_false, extract_above (show 21 ≤ 31 by decide), extract_above (show 21 ≤ 23 by decide),
    extract_above (show 21 ≤ 21 by decide), extract_above (show 21 ≤ 29 by decide),
    extract_immediate (hbase k hk), extract_destination (hbase k hk), h1, h2, h3, h4, hshift, hd]
  simp

/-! ### The register while the constant is built -/

/-- The halfwords below `k` are those of the constant, the others are the fill. -/
def BuiltTo (movn : Bool) (value : BitVec 64) (k : Nat) (v : BitVec 64) : Prop :=
  ∀ i < 64, v.getLsbD i = if i < 16 * k then value.getLsbD i else movn

theorem getLsbD_halfwordOf (value : BitVec 64) (k i : Nat) :
    (halfwordOf value k).getLsbD i = (decide (i < 16) && value.getLsbD (16 * k + i)) := by
  rcases Nat.lt_or_ge i 16 with hi | hi
  · have hmask : ∀ i < 16, (65535#16).getLsbD i = true := by decide
    simp [-BitVec.getLsbD_eq_getElem, halfwordOf, hi, hmask i hi]
  · simp [-BitVec.getLsbD_eq_getElem, halfwordOf, show ¬i < 16 by omega]

/-- A halfword that is the fill has its bits. -/
theorem halfwordOf_eq_fill {movn : Bool} {value : BitVec 64} {k : Nat}
    (h : halfwordOf value k = fillOf movn) {i : Nat} (h1 : 16 * k ≤ i) (h2 : i < 16 * (k + 1)) :
    value.getLsbD i = movn := by
  have hfill : ∀ j < 16, (fillOf movn).getLsbD j = movn := by cases movn <;> decide
  have hbit := getLsbD_halfwordOf value k (i - 16 * k)
  rw [h, hfill _ (by omega), show 16 * k + (i - 16 * k) = i by omega] at hbit
  simpa [show i - 16 * k < 16 by omega] using hbit.symm

theorem BuiltTo.skip {movn : Bool} {value v : BitVec 64} {k : Nat} (h : BuiltTo movn value k v)
    (hfill : halfwordOf value k = fillOf movn) : BuiltTo movn value (k + 1) v := by
  intro i hi
  rw [h i hi]
  by_cases hlow : i < 16 * k
  · rw [if_pos hlow, if_pos (by omega)]
  · rw [if_neg hlow]
    split
    · next hhigh => exact (halfwordOf_eq_fill hfill (by omega) hhigh).symm
    · rfl

theorem BuiltTo.next {movn : Bool} {value v : BitVec 64} {k : Nat} (h : BuiltTo movn value k v) :
    BuiltTo movn value (k + 1) ((v &&& ~~~(0xFFFF#64 <<< (16 * k))) |||
      (halfwordOf value k).setWidth 64 <<< (16 * k)) := by
  intro i hi
  have hv := h i hi
  by_cases hlow : i < 16 * k
  · simp [-BitVec.getLsbD_eq_getElem, hi, hlow, hv, show i < 16 * (k + 1) by omega]
  · have hbit := getLsbD_halfwordOf value k (i - 16 * k)
    rw [show 16 * k + (i - 16 * k) = i by omega] at hbit
    have hmask := getLsbD_halfwordMask64 (i - 16 * k) (by omega)
    by_cases hhigh : i < 16 * (k + 1)
    · simp [-BitVec.getLsbD_eq_getElem, hi, hlow, hbit, hmask, hhigh, show i - 16 * k < 16 by omega,
        show i - 16 * k < 64 by omega]
    · simp [-BitVec.getLsbD_eq_getElem, hi, hlow, hbit, hmask, hv, hhigh, show ¬i - 16 * k < 16 by omega]

theorem builtTo_first {movn : Bool} {value : BitVec 64} {k : Nat}
    (hbelow : ∀ i < 16 * k, value.getLsbD i = movn) :
    BuiltTo movn value (k + 1) (if movn
      then ~~~((~~~halfwordOf value k).setWidth 64 <<< (16 * k))
      else (halfwordOf value k).setWidth 64 <<< (16 * k)) := by
  intro i hi
  have hbit := getLsbD_halfwordOf value k (i - 16 * k)
  by_cases hlow : i < 16 * k
  · have hb := hbelow i hlow
    cases movn <;> simp [-BitVec.getLsbD_eq_getElem, hi, hlow, hb, show i < 16 * (k + 1) by omega]
  · rw [show 16 * k + (i - 16 * k) = i by omega] at hbit
    by_cases hhigh : i < 16 * (k + 1)
    · cases movn <;> simp [-BitVec.getLsbD_eq_getElem, hi, hlow, hbit, hhigh, show i - 16 * k < 16 by omega,
        show i - 16 * k < 64 by omega]
    · cases movn <;> simp [-BitVec.getLsbD_eq_getElem, hi, hlow, hbit, hhigh, show ¬i - 16 * k < 16 by omega]

theorem BuiltTo.eq {movn : Bool} {value v : BitVec 64} (h : BuiltTo movn value 4 v) : v = value :=
  BitVec.eq_of_getLsbD_eq fun i hi => by rw [h i hi, if_pos (by omega)]

@[simp] theorem Host.set_set (h : Host) (r : XRegister) (v w : BitVec 64) :
    (h.set r v).set r w = h.set r w := by
  simp [Host.set]

/-- After the first word each halfword that is not the fill is moved into its place. -/
theorem executeMoves_next {destination : XRegister} (hd : destination ≠ 31) (movn : Bool)
    (value : BitVec 64) : ∀ (count k : Nat) (h : Host), k + count = 4 →
    BuiltTo movn value k (h.x destination) →
      executeMoves h (moveWordsFrom movn destination value count k true) =
        some (h.set destination value)
  | 0, k, h, hk, hbuilt => by
    obtain rfl : k = 4 := hk
    have hvalue : h.set destination value = h := by
      rw [← hbuilt.eq, Host.set, Function.update_eq_self]
    rw [moveWordsFrom, executeMoves, hvalue]
  | count + 1, k, h, hk, hbuilt => by
    rw [moveWordsFrom]
    split
    · next hskip =>
      simp only [Bool.true_or, Bool.and_true, beq_iff_eq] at hskip
      exact executeMoves_next hd movn value count (k + 1) h (by omega) (hbuilt.skip hskip)
    · have hnext := executeMoves_next hd movn value count (k + 1)
        (h.set destination ((h.x destination &&& ~~~(0xFFFF#64 <<< (16 * k))) |||
          (halfwordOf value k).setWidth 64 <<< (16 * k))) (by omega)
        (by simpa using hbuilt.next)
      rw [executeMoves, executeMove_next h hd movn value (by omega), Option.bind_some, hnext,
        Host.set_set]

/-- Before the first word all halfwords are the fill, and some other follows. -/
theorem executeMoves_first {destination : XRegister} (hd : destination ≠ 31) (movn : Bool)
    (value : BitVec 64) : ∀ (count k : Nat) (h : Host), k + count = 4 →
    (∀ i < 16 * k, value.getLsbD i = movn) → (value = filled movn → k = 0) →
      executeMoves h (moveWordsFrom movn destination value count k false) =
        some (h.set destination value)
  | 0, k, h, hk, hbelow, hother => by
    obtain rfl : k = 4 := hk
    have hfilled : ∀ i < 64, (filled movn).getLsbD i = movn := by cases movn <;> decide
    have : value = filled movn :=
      BitVec.eq_of_getLsbD_eq fun i hi => by rw [hbelow i (by omega), hfilled i hi]
    exact absurd (hother this) (by decide)
  | count + 1, k, h, hk, hbelow, hother => by
    rw [moveWordsFrom]
    split
    · next hskip =>
      simp only [Bool.false_or, Bool.and_eq_true, beq_iff_eq, bne_iff_ne, ne_eq] at hskip
      refine executeMoves_first hd movn value count (k + 1) h (by omega) (fun i hi => ?_)
        fun heq => absurd heq hskip.2
      by_cases hlow : i < 16 * k
      · exact hbelow i hlow
      · exact halfwordOf_eq_fill hskip.1 (by omega) hi
    · have hnext := executeMoves_next hd movn value count (k + 1)
        (h.set destination (if movn
          then ~~~((~~~halfwordOf value k).setWidth 64 <<< (16 * k))
          else (halfwordOf value k).setWidth 64 <<< (16 * k))) (by omega)
        (by simpa using builtTo_first hbelow)
      rw [executeMoves, executeMove_first h hd movn value (by omega), Option.bind_some, hnext,
        Host.set_set]

/-- The words leave the constant in the register, and all else as it is. -/
theorem executeMoves_moveWords (h : Host) {destination : XRegister} (hd : destination ≠ 31)
    (value : BitVec 64) :
    executeMoves h (moveWords destination value) = some (h.set destination value) :=
  executeMoves_first hd _ value 4 0 h rfl (fun i hi => absurd hi (by omega)) fun _ => rfl

/-! ### How many words there are -/

theorem length_next (movn : Bool) (destination : XRegister) (value : BitVec 64) :
    ∀ count k : Nat, (moveWordsFrom movn destination value count k true).length =
      (List.range' k count).countP fun j => halfwordOf value j != fillOf movn
  | 0, _ => rfl
  | count + 1, k => by
    have hrest := length_next movn destination value count (k + 1)
    rw [moveWordsFrom, List.range'_succ, List.countP_cons]
    by_cases hfill : halfwordOf value k = fillOf movn
    · simp [hfill, hrest]
    · simp [hfill, hrest]

theorem length_first (movn : Bool) (destination : XRegister) (value : BitVec 64)
    (hother : value ≠ filled movn) :
    ∀ count k : Nat, (moveWordsFrom movn destination value count k false).length =
      (List.range' k count).countP fun j => halfwordOf value j != fillOf movn
  | 0, _ => rfl
  | count + 1, k => by
    have hrest := length_first movn destination value hother count (k + 1)
    rw [moveWordsFrom, List.range'_succ, List.countP_cons]
    by_cases hfill : halfwordOf value k = fillOf movn
    · simp [hfill, hrest, hother]
    · simp [hfill, length_next]

/-- A constant all of whose halfwords are the fill. -/
theorem eq_filled_of_countOther {movn : Bool} {value : BitVec 64}
    (h : countOther value (fillOf movn) = 0) : value = filled movn := by
  have hall := List.countP_eq_zero.mp h
  have hfilled : ∀ i < 64, (filled movn).getLsbD i = movn := by cases movn <;> decide
  refine BitVec.eq_of_getLsbD_eq fun i hi => ?_
  have hk := hall (i / 16) (List.mem_range.mpr (by omega))
  simp only [bne_iff_ne, ne_eq, not_not] at hk
  rw [halfwordOf_eq_fill hk (by omega) (by omega), hfilled i hi]

theorem constantMaterializationCost_eq (value : BitVec 64) : constantMaterializationCost value =
    max 1 (min (countOther value 0) (countOther value 0xFFFF#16)) := by
  have hhalfword (k : Nat) : (value >>> (16 * k)).setWidth 16 = halfwordOf value k := by
    refine BitVec.eq_of_getLsbD_eq fun i hi => ?_
    rw [getLsbD_halfwordOf]
    simp [-BitVec.getLsbD_eq_getElem, hi]
  simp only [constantMaterializationCost, hhalfword, List.countP_map]
  rfl

/-- There are as many words as the cost says. -/
theorem length_moveWords (destination : XRegister) (value : BitVec 64) :
    (moveWords destination value).length = constantMaterializationCost value := by
  have hcost : constantMaterializationCost value =
      max 1 (countOther value (fillOf (useMovn value))) := by
    rw [constantMaterializationCost_eq, useMovn]
    by_cases hless : countOther value 0xFFFF#16 < countOther value 0
    · simp only [hless, decide_true, fillOf, if_true]
      omega
    · simp only [hless, decide_false, fillOf, Bool.false_eq_true, if_false]
      omega
  rw [hcost]
  by_cases hother : value = filled (useMovn value)
  · -- the first halfword is moved although it is the fill
    have hall : ∀ k < 4, halfwordOf (filled (useMovn value)) k = fillOf (useMovn value) := by
      cases useMovn value <;> decide
    have hzero : countOther value (fillOf (useMovn value)) = 0 := by
      refine List.countP_eq_zero.mpr fun k hk => ?_
      rw [hother]
      simpa [← hother] using hall k (List.mem_range.mp hk)
    have hrest : (moveWordsFrom (useMovn value) destination value 3 1 true).length = 0 := by
      rw [length_next]
      refine List.countP_eq_zero.mpr fun k hk => ?_
      have := List.countP_eq_zero.mp hzero k (List.mem_range.mpr (by
        have := List.mem_range'_1.mp hk
        omega))
      exact this
    rw [hzero, moveWords, moveWordsFrom]
    simp [← hother, hrest]
  · have hpositive : 0 < countOther value (fillOf (useMovn value)) :=
      Nat.pos_of_ne_zero fun h => hother (eq_filled_of_countOther h)
    rw [moveWords, length_first _ _ _ hother, ← List.range_eq_range']
    show countOther value (fillOf (useMovn value)) = _
    omega

end Rosa.Arm64
