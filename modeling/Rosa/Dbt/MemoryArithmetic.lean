import Rosa.Dbt.FlagHelpers
import Rosa.Dbt.SimdMemory
import Rosa.Guest.Words

/-!
# Arithmetic on guest memory

`dbt/MemoryArithmetic.cpp` : the helpers that read a word of guest memory, store the result of an
operation on it and set the flags, with and without a LOCK prefix. All of them are one definition,
`modifyGuest`, at the operation and the width of a row. Most check that the word may be read and
written before they read it; four only read it and then store. The difference is not seen : each
helper does its operation on the whole word, or it reports a fault and leaves the registers and the
memory.

There is one guest thread, so the fence of a LOCK prefix does nothing here.
-/

namespace Rosa

namespace X86

open AddressSpace Rosa.Computation

/-! ## The helpers -/

/-- What a helper does with the word. -/
inductive GuestUpdate
  | add | sub | or | and | increment | decrement | compareExchange | exchange | exchangeAdd
  | shiftLeft | shiftRight | bitSet
  deriving DecidableEq, Repr

/-- The helpers. -/
inductive GuestHelper
  | addGuest8 | addGuest16 | addGuest32 | addGuest64
  | subGuest8 | subGuest32 | subGuest64
  | orGuest8 | orGuest16 | orGuest32 | orGuest64
  | andGuest8 | andGuest16 | andGuest32 | andGuest64
  | incrementGuest8 | incrementGuest16 | incrementGuest32 | incrementGuest64
  | lockedIncrementGuest32 | lockedIncrementGuest64
  | lockedDecrementGuest32 | lockedDecrementGuest64
  | decrementGuest8 | decrementGuest16 | decrementGuest32 | decrementGuest64
  | compareExchangeGuest8 | compareExchangeGuest32 | compareExchangeGuest64
  | exchangeGuest8 | exchangeGuest32 | exchangeGuest64
  | lockedOrGuest8 | lockedOrGuest16 | lockedOrGuest32 | lockedOrGuest64
  | lockedAndGuest16 | lockedAndGuest32 | lockedAndGuest64
  | lockedAddGuest32 | lockedAddGuest64
  | lockedExchangeAddGuest16 | lockedExchangeAddGuest32 | lockedExchangeAddGuest64
  | shiftLeftGuest64 | shiftRightGuest32 | shiftRightGuest64
  | lockedBitSetGuest32 | lockedBitSetGuest64
  deriving DecidableEq, Repr

/-- A helper's operation, its width, and whether it calls `validateAccess`. -/
structure GuestRow where
  update : GuestUpdate
  width : Width
  validates : Bool := true

/-- The row of each helper. -/
def GuestHelper.row : GuestHelper → GuestRow
  | addGuest8 => { update := .add, width := .i8 }
  | addGuest16 => { update := .add, width := .i16 }
  | addGuest32 => { update := .add, width := .i32 }
  | addGuest64 => { update := .add, width := .i64 }
  | subGuest8 => { update := .sub, width := .i8 }
  | subGuest32 => { update := .sub, width := .i32 }
  | subGuest64 => { update := .sub, width := .i64 }
  | orGuest8 => { update := .or, width := .i8 }
  | orGuest16 => { update := .or, width := .i16 }
  | orGuest32 => { update := .or, width := .i32 }
  | orGuest64 => { update := .or, width := .i64 }
  | andGuest8 => { update := .and, width := .i8 }
  | andGuest16 => { update := .and, width := .i16 }
  | andGuest32 => { update := .and, width := .i32 }
  | andGuest64 => { update := .and, width := .i64 }
  | incrementGuest8 => { update := .increment, width := .i8 }
  | incrementGuest16 => { update := .increment, width := .i16, validates := false }
  | incrementGuest32 => { update := .increment, width := .i32 }
  | incrementGuest64 => { update := .increment, width := .i64, validates := false }
  | lockedIncrementGuest32 => { update := .increment, width := .i32 }
  | lockedIncrementGuest64 => { update := .increment, width := .i64 }
  | lockedDecrementGuest32 => { update := .decrement, width := .i32 }
  | lockedDecrementGuest64 => { update := .decrement, width := .i64 }
  | decrementGuest8 => { update := .decrement, width := .i8 }
  | decrementGuest16 => { update := .decrement, width := .i16, validates := false }
  | decrementGuest32 => { update := .decrement, width := .i32 }
  | decrementGuest64 => { update := .decrement, width := .i64, validates := false }
  | compareExchangeGuest8 => { update := .compareExchange, width := .i8 }
  | compareExchangeGuest32 => { update := .compareExchange, width := .i32 }
  | compareExchangeGuest64 => { update := .compareExchange, width := .i64 }
  | exchangeGuest8 => { update := .exchange, width := .i8 }
  | exchangeGuest32 => { update := .exchange, width := .i32 }
  | exchangeGuest64 => { update := .exchange, width := .i64 }
  | lockedOrGuest8 => { update := .or, width := .i8 }
  | lockedOrGuest16 => { update := .or, width := .i16 }
  | lockedOrGuest32 => { update := .or, width := .i32 }
  | lockedOrGuest64 => { update := .or, width := .i64 }
  | lockedAndGuest16 => { update := .and, width := .i16 }
  | lockedAndGuest32 => { update := .and, width := .i32 }
  | lockedAndGuest64 => { update := .and, width := .i64 }
  | lockedAddGuest32 => { update := .add, width := .i32 }
  | lockedAddGuest64 => { update := .add, width := .i64 }
  | lockedExchangeAddGuest16 => { update := .exchangeAdd, width := .i16 }
  | lockedExchangeAddGuest32 => { update := .exchangeAdd, width := .i32 }
  | lockedExchangeAddGuest64 => { update := .exchangeAdd, width := .i64 }
  | shiftLeftGuest64 => { update := .shiftLeft, width := .i64 }
  | shiftRightGuest32 => { update := .shiftRight, width := .i32 }
  | shiftRightGuest64 => { update := .shiftRight, width := .i64 }
  | lockedBitSetGuest32 => { update := .bitSet, width := .i32 }
  | lockedBitSetGuest64 => { update := .bitSet, width := .i64 }

/-- The arguments : the operand is the source, the count or the bit index, and `encoding` names the
register of an exchange. -/
structure GuestArguments where
  address : BitVec 64
  operand : BitVec 64 := 0
  encoding : BitVec 64 := 0

namespace GuestUpdate

/-- The operation has a register that it exchanges with. -/
def takesRegister : GuestUpdate → Bool
  | exchange | exchangeAdd => true
  | _ => false

/-- The word that is stored, if one is. -/
def stored (w : Width) (g : GuestState) (original operand : BitVec 64) :
    GuestUpdate → Option (BitVec 64)
  | add | exchangeAdd => some (w.truncate (original + w.truncate operand))
  | sub => some (w.truncate (original - w.truncate operand))
  | or => some (original ||| w.truncate operand)
  | and => some (original &&& w.truncate operand)
  | increment => some (w.truncate (original + 1))
  | decrement => some (w.truncate (original - 1))
  | compareExchange =>
    if w.truncate (g.regs .rax) = original then some (w.truncate operand) else none
  | exchange => some (w.truncate operand)
  | shiftLeft =>
    let count := shiftCount w operand
    some (if count = 0 then original else w.truncate (original <<< count))
  | shiftRight =>
    let count := shiftCount w operand
    some (if count = 0 then original else original >>> count)
  | bitSet => some (original ||| 1 <<< shiftCount w operand)

/-- The registers after the store. -/
def registers (w : Width) (g : GuestState) (original : BitVec 64) (register : Register) :
    GuestUpdate → GuestState
  | compareExchange =>
    if w.truncate (g.regs .rax) = original then
      if w = .i32 then g.setReg .rax original else g
    else g.setReg .rax (w.merge (g.regs .rax) original)
  | exchange | exchangeAdd => g.setReg register (w.merge (g.regs register) original)
  | _ => g

/-- The flag helper that is called last, if one is. -/
def flagCall (w : Width) (g : GuestState) (original operand : BitVec 64) (result : BitVec 64) :
    GuestUpdate → Option FlagCall
  | add | exchangeAdd => some (.add w original (w.truncate operand) result)
  | sub => some (.sub w original (w.truncate operand) result)
  | or | and => some (.logic w result)
  | increment => some (.inc w original result)
  | decrement => some (.dec w original result)
  | compareExchange =>
    let accumulator := w.truncate (g.regs .rax)
    some (.sub w original accumulator (w.truncate (original - accumulator)))
  | exchange => none
  | shiftLeft => some (.shiftLeft w original result (BitVec.ofNat 64 (shiftCount w operand)))
  | shiftRight => some (.shiftRight w original result (BitVec.ofNat 64 (shiftCount w operand)))
  | bitSet => some (.bitTest w original (BitVec.ofNat 64 (shiftCount w operand)))

end GuestUpdate

namespace GuestRow

variable (row : GuestRow) (args : GuestArguments) (g : GuestState)

/-- How many bytes are accessed. -/
def size : Nat := row.width.bits / 8

/-- Where they are : a bit set goes to the unit of its bit. -/
def target : BitVec 64 :=
  if row.update = .bitSet then
    args.address + (args.operand >>> (if row.width = .i64 then 6 else 5)) * BitVec.ofNat 64 row.size
  else args.address

/-- `faultAddress` and `faultSize`; the address is the argument. -/
def fault : GuestFault := ⟨args.address, row.size⟩

/-- The check before the accesses, if there is one. -/
def check : Access Unit :=
  if row.validates then
    validateAccess (row.target args).toNat row.size { read := true, write := true }
  else pure ()

/-- The store, if there is one. -/
def store : Option (BitVec 64) → Access Unit
  | some result => writeWord (row.target args).toNat row.size result
  | none => pure ()

/-- The accesses of a helper, and the word it read. -/
def access : Access (BitVec 64) := do
  row.check args
  let bytes ← readWord (row.target args).toNat row.size
  let original := ofLittleEndian 64 row.size bytes
  row.store args (row.update.stored row.width g original args.operand)
  pure original

/-- The state after a helper that read `original`. -/
def finish (original : BitVec 64) (register : Register) : GuestState :=
  let g' := row.update.registers row.width g original register
  let result := (row.update.stored row.width g original args.operand).getD original
  match row.update.flagCall row.width g original args.operand result with
  | some call => { g' with rflags := call.update g.rflags }
  | none => g'

/-- The helper of a row : the fault, if it returns no state, and what it leaves. -/
def modifyGuest (s : AddressSpace) : Option GuestFault × GuestState × AddressSpace :=
  if row.update.takesRegister && 15 < args.encoding.toNat then (some (row.fault args), g, s)
  else
    match row.access args g s with
    | (.ok original, s') =>
      (none, row.finish args g original ((Register.ofIndex? args.encoding.toNat).getD .rax), s')
    | (.error _, s') => (some (row.fault args), g, s')

end GuestRow

/-- The pair of the accumulators is the pair of memory. -/
def pairMatches (g : GuestState) (memoryLow memoryHigh : BitVec 64) : Bool :=
  g.regs .rax == memoryLow && g.regs .rdx == memoryHigh

/-- The store of `compareExchangeGuestPair`. -/
def storePair (g : GuestState) (address : BitVec 64) (equal : Bool) : Access Unit :=
  if equal then
    writeBytes address.toNat (littleEndian 8 (g.regs .rbx) ++ littleEndian 8 (g.regs .rcx))
  else pure ()

/-- The accesses of `compareExchangeGuestPair`, and the two words it read. -/
def pairAccess (g : GuestState) (address : BitVec 64) : Access (BitVec 64 × BitVec 64) := do
  failIf (address &&& 15 != 0) "CMPXCHG16B requires a 16-byte aligned guest address"
  validateAccess address.toNat 16 { read := true, write := true }
  let bytes ← readInto address.toNat 16
  let memoryLow := ofLittleEndian 64 8 bytes
  let memoryHigh := ofLittleEndian 64 8 (bytes.drop 8)
  storePair g address (pairMatches g memoryLow memoryHigh)
  pure (memoryLow, memoryHigh)

/-- The state after `compareExchangeGuestPair` read the two words. -/
def finishPair (g : GuestState) (memoryLow memoryHigh : BitVec 64) : GuestState :=
  if pairMatches g memoryLow memoryHigh then { g with rflags := g.rflags ||| flagZero }
  else
    { (g.setReg .rax memoryLow).setReg .rdx memoryHigh with rflags := g.rflags &&& ~~~flagZero }

/-- `compareExchangeGuestPair`. -/
def compareExchangeGuestPair (address : BitVec 64) (g : GuestState) (s : AddressSpace) :
    Option GuestFault × GuestState × AddressSpace :=
  match pairAccess g address s with
  | (.ok (memoryLow, memoryHigh), s') => (none, finishPair g memoryLow memoryHigh, s')
  | (.error _, s') => (some ⟨address, 16⟩, g, s')

/-- A call of a helper. -/
inductive GuestCall
  | update (helper : GuestHelper) (args : GuestArguments)
  | compareExchangePair (address : BitVec 64)

/-- What a call does : the fault, if it returns no state, and what it leaves. -/
def GuestCall.run (g : GuestState) (s : AddressSpace) :
    GuestCall → Option GuestFault × GuestState × AddressSpace
  | .update helper args => helper.row.modifyGuest args g s
  | .compareExchangePair address => compareExchangeGuestPair address g s

/-- A sequence of calls, up to the first fault. -/
def runCalls : List GuestCall → GuestState → AddressSpace →
    Option GuestFault × GuestState × AddressSpace
  | [], g, s => (none, g, s)
  | call :: rest, g, s =>
    match call.run g s with
    | (none, g', s') => runCalls rest g' s'
    | (some fault, g', s') => (some fault, g', s')

/-! ## The architecture -/

/-- The word after the operation and its flags, of the word `x` and the operand `y`. The flags of a
comparison are those of subtracting the accumulator from memory. -/
def GuestUpdate.result {k : Nat} (accumulator x y : BitVec k) (count : Nat) :
    GuestUpdate → BitVec k × FlagEffects
  | add | exchangeAdd => adc x y false
  | sub => sbb x y false
  | or => (x ||| y, logicEffects (x ||| y))
  | and => (x &&& y, logicEffects (x &&& y))
  | increment => inc x
  | decrement => dec x
  | compareExchange => (if accumulator = x then y else x, (sbb x accumulator false).2)
  | exchange => (y, .none)
  | shiftLeft => shl x count
  | shiftRight => shr x count
  | bitSet => (x ||| BitVec.twoPow k count, bitTestEffects x count)

/-- The registers after the operation : an exchange and a comparison leave the word in one. -/
def GuestUpdate.written (w : Width) (g : GuestState) (x : BitVec w.bits) (register : Register) :
    GuestUpdate → GuestState
  | compareExchange => writeReg g w .rax x
  | exchange | exchangeAdd => writeReg g w register x
  | _ => g

/-- All bytes of the range may be read and written. -/
def Permits (s : AddressSpace) (start size : Nat) : Prop :=
  ∀ k < size, s.ReadableAt (start + k) ∧ s.MayWrite (start + k)

namespace GuestRow

variable (row : GuestRow) (args : GuestArguments) (g : GuestState) (memory : Nat → Byte)

/-- The word of memory that the operation is on. -/
def word : BitVec row.width.bits :=
  (ofLittleEndian 64 row.size (bytesAt memory (row.target args).toNat row.size)).setWidth _

/-- The result and the flags of the operation. -/
def outcome : BitVec row.width.bits × FlagEffects :=
  row.update.result (readReg g row.width .rax) (row.word args memory)
    (args.operand.setWidth _) (maskedCount row.width args.operand)

/-- The registers after the operation. -/
def registersAfter : GuestState :=
  row.update.written row.width g (row.word args memory)
    ((Register.ofIndex? args.encoding.toNat).getD .rax)

/-- What the rows of the helpers have in common. -/
structure Proper : Prop where
  compares : row.update = .compareExchange → row.validates = true
  wide : row.update = .bitSet → row.width ∈ [Width.i32, .i64]
  shifts : row.update = .shiftLeft → row.width = .i64

end GuestRow

theorem GuestHelper.row_proper (helper : GuestHelper) : helper.row.Proper := by
  constructor <;> cases helper <;> decide

/-! ## The accesses -/

section

variable {s s' : AddressSpace} {memory : Nat → Byte} {address size : Nat}

/-- A check for reading and writing that returns has found bytes that may be written, and one that
throws has met a byte that may not be both. -/
theorem validateAccess_permits (hr : Regular s) (address size : Nat) :
    Post (validateAccess address size { read := true, write := true }) s
      (fun _ s' => Calm s s' ∧ ∀ k < size, s.MayWrite (address + k))
      fun _ s' => Calm s s' ∧ ¬Permits s address size := by
  refine (validateAccess_found hr.inv address size _).mono ?_ ?_
  · rintro _ s' ⟨hcalm, hall⟩
    refine ⟨hcalm, fun k hk => ?_⟩
    obtain ⟨i, m, hf⟩ := hall k hk
    have hpermitted := hf.permitted
    simp only [Permission.has, Bool.and_eq_true, Bool.or_eq_true] at hpermitted
    exact ⟨i, m, hf.index, hf.base, hf.limit, by simpa [Permission.has] using hpermitted.1.2⟩
  · rintro _ s' ⟨hcalm, hnot⟩
    refine ⟨hcalm, fun hall => hnot fun k hk => ?_⟩
    obtain ⟨⟨i, m, hread, -⟩, j, m', hwrite⟩ := hall k hk
    obtain ⟨rfl, rfl⟩ := hread.unique hr.inv hwrite
    have h1 := hread.permitted
    have h2 := hwrite.permitted
    simp only [Permission.has, Bool.and_eq_true, Bool.or_eq_true] at h1 h2
    exact ⟨i, m, hread.index, hread.base, hread.limit, by
      simpa [Permission.has] using ⟨by simpa using h1.1.1, by simpa using h2.1.2⟩⟩

end

namespace GuestRow

variable {row : GuestRow} {args : GuestArguments} {g : GuestState} {memory : Nat → Byte}
variable {s : AddressSpace}

theorem size_le (row : GuestRow) : row.size ≤ 8 := by
  unfold size
  cases row.width <;> decide

theorem size_pos (row : GuestRow) : 0 < row.size := by
  unfold size
  cases row.width <;> decide

theorem bits_eq (row : GuestRow) : row.width.bits = 8 * row.size := by
  unfold size
  cases row.width <;> decide

theorem check_spec (hr : Regular s) :
    Post (row.check args) s
      (fun _ s' => Calm s s' ∧ (row.validates = true →
        ∀ k < row.size, s.MayWrite ((row.target args).toNat + k)))
      fun _ s' => SameMemory s s' ∧ ¬Permits s (row.target args).toNat row.size := by
  unfold check
  split
  · exact (validateAccess_permits hr _ _).mono (fun _ _ h => ⟨h.1, fun _ => h.2⟩)
      fun _ _ h => ⟨h.1.sameMemory hr, h.2⟩
  · next hnot => exact Post.pure ⟨.refl s, fun h => absurd h hnot⟩

/-- What the accesses of a helper do : they read the word and replace it, or they throw and leave
memory as it was. -/
theorem access_spec (hproper : row.Proper) (hs : Shown memory s)
    (hno : NoneFails s (row.target args).toNat row.size) :
    Post (row.access args g) s
      (fun original s' => Permits s (row.target args).toNat row.size ∧
        original = ofLittleEndian 64 row.size (bytesAt memory (row.target args).toNat row.size) ∧
        Shown (overwrite memory (row.target args).toNat (wordBytes row.size
          ((row.update.stored row.width g original args.operand).getD original))) s' ∧
        ∀ a n, NoneFails s a n → NoneFails s' a n)
      fun _ s' => SameMemory s s' ∧ ¬Permits s (row.target args).toNat row.size := by
  have hr := hs.regular
  unfold access
  refine Post.bind ((check_spec hr).mono ?_ fun _ _ h => h)
  rintro _ s1 ⟨hcalm1, hchecked⟩
  have hs1 := hcalm1.shown hs
  have hno1 := hcalm1.noneFails hr hno
  refine Post.bind ((readWord_permits hs1 hno1 row.size_pos).mono ?_ ?_)
  · rintro _ s2 ⟨hcalm2, rfl, hreadable⟩
    have hcalm := hcalm1.trans hcalm2
    have hs2 := hcalm.shown hs
    have hno2 := hcalm.noneFails hr hno
    have hread (k : Nat) (hk : k < row.size) : s.ReadableAt ((row.target args).toNat + k) :=
      (hreadable k hk).of_mappings hcalm1.touches.mappings_eq.symm
    dsimp only
    generalize horiginal : ofLittleEndian 64 row.size
      (bytesAt memory (row.target args).toNat row.size) = original
    cases hstored : row.update.stored row.width g original args.operand with
    | some result =>
      have hlength : (wordBytes row.size result).length = row.size := length_littleEndian ..
      refine Post.bind ((writeBytes_permits hs2 (by rwa [hlength])).mono ?_ ?_)
      · rintro _ s3 ⟨hs3, hpages, hwrite⟩
        refine Post.pure ⟨fun k hk => ⟨hread k hk, ?_⟩, rfl, by rwa [hstored],
          fun a n h => hpages a n (hcalm.noneFails hr h)⟩
        exact hcalm.touches.samePermits.symm.mayWrite (hwrite k (hlength.symm ▸ hk))
      · rintro _ s3 ⟨hsame, hnot⟩
        refine ⟨(hcalm.sameMemory hr).trans hsame, fun hall => hnot fun k hk => ?_⟩
        exact hcalm.touches.samePermits.mayWrite (hall k (hlength ▸ hk)).2
    | none =>
      -- only a comparison stores nothing, and it has checked
      have hcompare : row.update = .compareExchange := by
        cases hupdate : row.update <;> simp [hupdate, GuestUpdate.stored] at hstored
        rfl
      have hwrite := hchecked (hproper.compares hcompare)
      refine Post.bind (Post.pure (Post.pure
        ⟨fun k hk => ⟨hread k hk, hwrite k hk⟩, rfl, ?_, fun a n h => hcalm.noneFails hr h⟩))
      rw [hstored, Option.getD_none, ← horiginal, wordBytes,
        littleEndian_ofLittleEndian (Nat.mul_le_mul_left 8 row.size_le) (by simp [bytesAt]),
        overwrite_self]
      exact hs2
  · rintro _ s2 ⟨hcalm2, hnot⟩
    refine ⟨(hcalm1.trans hcalm2).sameMemory hr, fun hall => hnot fun k hk => ?_⟩
    exact (hall k hk).1.of_mappings hcalm1.touches.mappings_eq

/-! ## The values -/

/-- The word of memory, zero extended. -/
theorem extended_word :
    ofLittleEndian 64 row.size (bytesAt memory (row.target args).toNat row.size) =
      (row.word args memory).setWidth 64 := by
  refine BitVec.eq_of_getLsbD_eq fun j hj => ?_
  rw [word, BitVec.getLsbD_setWidth, BitVec.getLsbD_setWidth, getLsbD_ofLittleEndian _ _ hj,
    row.bits_eq]
  by_cases hlt : j < 8 * row.size <;> simp [hlt, hj]

end GuestRow

section

variable {w : Width} {g : GuestState} {x : BitVec w.bits} {operand : BitVec 64}

@[simp] theorem setWidth_extended (x : BitVec w.bits) :
    (x.setWidth 64).setWidth w.bits = x := by
  rw [BitVec.setWidth_setWidth_of_le _ w.bits_le, BitVec.setWidth_eq]

theorem setWidth_one : (1 : BitVec 64).setWidth w.bits = 1 := by
  cases w <;> decide

theorem adc_result (x y : BitVec w.bits) : (adc x y false).1 = x + y := by
  rw [(isSum_adc x y false).eq]
  simp

theorem sbb_result (x y : BitVec w.bits) : (sbb x y false).1 = x - y := by
  simp [sbb]

/-- The accumulator compares with the word as at the width. -/
theorem truncate_eq_extended (v : BitVec 64) :
    w.truncate v = x.setWidth 64 ↔ v.setWidth w.bits = x := by
  constructor
  · intro h
    have hwidth := congrArg (BitVec.setWidth w.bits) h
    rwa [setWidth_truncate, setWidth_extended] at hwidth
  · intro h
    rw [Width.truncate, h]

/-- The word after the operation is its result. -/
theorem stored_result (u : GuestUpdate) :
    ((u.stored w g (x.setWidth 64) operand).getD (x.setWidth 64)).setWidth w.bits =
      (u.result (readReg g w .rax) x (operand.setWidth w.bits) (maskedCount w operand)).1 := by
  have hle := w.bits_le
  cases u with
  | add | exchangeAdd =>
    simp only [GuestUpdate.stored, GuestUpdate.result, Option.getD_some, adc_result,
      setWidth_truncate, BitVec.setWidth_add _ _ hle, setWidth_extended]
  | sub =>
    simp only [GuestUpdate.stored, GuestUpdate.result, Option.getD_some, sbb_result,
      setWidth_truncate, BitVec.sub_eq_add_neg, BitVec.setWidth_add _ _ hle,
      BitVec.setWidth_neg_of_le hle, setWidth_extended]
  | or =>
    simp only [GuestUpdate.stored, GuestUpdate.result, Option.getD_some, BitVec.setWidth_or,
      setWidth_truncate, setWidth_extended]
  | and =>
    simp only [GuestUpdate.stored, GuestUpdate.result, Option.getD_some, BitVec.setWidth_and,
      setWidth_truncate, setWidth_extended]
  | increment =>
    simp only [GuestUpdate.stored, GuestUpdate.result, Option.getD_some, inc, adc_result,
      setWidth_truncate, BitVec.setWidth_add _ _ hle, setWidth_extended, setWidth_one]
  | decrement =>
    simp only [GuestUpdate.stored, GuestUpdate.result, Option.getD_some, dec, sbb_result,
      setWidth_truncate, BitVec.sub_eq_add_neg, BitVec.setWidth_add _ _ hle,
      BitVec.setWidth_neg_of_le hle, setWidth_extended, setWidth_one]
  | compareExchange =>
    by_cases heq : (g.regs .rax).setWidth w.bits = x
    · simp only [GuestUpdate.stored, GuestUpdate.result, truncate_eq_extended, readReg, heq,
        if_true, Option.getD_some, setWidth_truncate]
    · simp only [GuestUpdate.stored, GuestUpdate.result, truncate_eq_extended, readReg, heq,
        if_false, Option.getD_none, setWidth_extended]
  | exchange =>
    simp only [GuestUpdate.stored, GuestUpdate.result, Option.getD_some, setWidth_truncate]
  | shiftLeft =>
    simp only [GuestUpdate.stored, GuestUpdate.result, Option.getD_some, shiftCount_eq, shl]
    split
    · exact setWidth_extended x
    · rw [setWidth_truncate, setWidth_shiftLeft (setWidth_extended x)]
  | shiftRight =>
    simp only [GuestUpdate.stored, GuestUpdate.result, Option.getD_some, shiftCount_eq, shr]
    split
    · exact setWidth_extended x
    · exact setWidth_shiftRight rfl _
  | bitSet =>
    simp only [GuestUpdate.stored, GuestUpdate.result, Option.getD_some, shiftCount_eq,
      BitVec.setWidth_or, setWidth_extended, BitVec.twoPow_eq]
    exact congrArg (x ||| ·) (setWidth_shiftLeft setWidth_one _)

theorem maskedCount_shiftCount (v : BitVec 64) :
    maskedCount w (BitVec.ofNat 64 (shiftCount w v)) = maskedCount w v := by
  have h := maskedCount_ofNat (w := w) v
  have hlt := maskedCount_lt_64 (w := w) v
  rw [Nat.mod_eq_of_lt (show maskedCount w v < 256 by omega)] at h
  rw [shiftCount_eq, h]

/-- The flags after the helper are ones that the operation allows. -/
theorem flags_meet (u : GuestUpdate) (hwide : u = .bitSet → w ∈ [Width.i32, .i64])
    {result : BitVec 64} (hresult : result.setWidth w.bits =
      (u.result (readReg g w .rax) x (operand.setWidth w.bits) (maskedCount w operand)).1)
    (rflags : BitVec 64) :
    (u.result (readReg g w .rax) x (operand.setWidth w.bits) (maskedCount w operand)).2.Meets
      rflags (((u.flagCall w g (x.setWidth 64) operand result).map
        (·.update rflags)).getD rflags) := by
  have hx := setWidth_extended x
  have hy : (w.truncate operand).setWidth w.bits = operand.setWidth w.bits :=
    setWidth_truncate operand
  have hcount : shiftCount w (BitVec.ofNat 64 (shiftCount w operand)) = maskedCount w operand := by
    rw [shiftCount_eq, maskedCount_shiftCount]
  cases u with
  | add | exchangeAdd => exact meets_add hx hy hresult
  | sub => exact meets_sub hx hy hresult
  | or | and => exact meets_logic hresult
  | increment => exact meets_inc hx hresult
  | decrement => exact meets_dec hx hresult
  | compareExchange =>
    refine meets_sub hx (setWidth_truncate _) ?_
    rw [setWidth_truncate, sbb_result, BitVec.sub_eq_add_neg, BitVec.setWidth_add _ _ w.bits_le,
      BitVec.setWidth_neg_of_le w.bits_le, setWidth_truncate, hx, BitVec.sub_eq_add_neg]
    rfl
  | exchange => exact FlagEffects.meets_none
  | shiftLeft =>
    refine meets_shl hx (hresult.trans ?_) hcount
    simp only [GuestUpdate.result, shl]
    split
    · next h0 => rw [h0, BitVec.shiftLeft_zero]
    · rfl
  | shiftRight =>
    refine meets_shr hx (hresult.trans ?_) hcount
    simp only [GuestUpdate.result, shr]
    split
    · next h0 => rw [h0, BitVec.ushiftRight_zero]
    · rfl
  | bitSet =>
    have hmeets (index : BitVec 64) : (bitTestEffects x (maskedCount w index)).Meets rflags
        (updateBitTestFlags w rflags (x.setWidth 64) index) :=
      meets_bitTest hx (maskedCount_lt_of_wide (hwide rfl) index)
    have hcounted := hmeets (BitVec.ofNat 64 (shiftCount w operand))
    rwa [maskedCount_shiftCount] at hcounted

theorem registers_eq (u : GuestUpdate) (register : Register) :
    u.registers w g (x.setWidth 64) register = u.written w g x register := by
  cases u with
  | compareExchange =>
    simp only [GuestUpdate.registers, GuestUpdate.written, truncate_eq_extended, writeReg]
    split
    · next heq =>
      -- the accumulator is the word, so only the upper half of a 32-bit write changes
      split
      · next hw =>
        subst hw
        exact congrArg (g.setReg .rax) (Width.truncate_setWidth .i32 x).symm
      · next hw =>
        rw [← heq, merge_self hw]
        simp [GuestState.setReg]
    · rfl
  | _ => rfl

end

theorem littleEndian_setWidth {k n : Nat} (hn : 8 * n ≤ k) (v : BitVec 64) :
    littleEndian n (v.setWidth k) = littleEndian n v := by
  refine List.map_congr_left fun i hi => ?_
  have hin : i < n := List.mem_range.mp hi
  refine BitVec.eq_of_getLsbD_eq fun j hj => ?_
  simp only [BitVec.getLsbD_setWidth, BitVec.getLsbD_ushiftRight]
  rw [decide_eq_true (show 8 * i + j < k by omega), Bool.true_and]

theorem GuestRow.finish_eq (row : GuestRow) (args : GuestArguments) (g : GuestState)
    (x : BitVec row.width.bits) {register : Register} :
    row.finish args g (x.setWidth 64) register =
      { row.update.written row.width g x register with
        rflags := ((row.update.flagCall row.width g (x.setWidth 64) args.operand
          ((row.update.stored row.width g (x.setWidth 64) args.operand).getD (x.setWidth 64))).map
            (·.update g.rflags)).getD g.rflags } := by
  unfold GuestRow.finish
  rw [registers_eq]
  dsimp only
  split
  · next call hcall =>
    rw [hcall]
    rfl
  · next hcall =>
    rw [hcall]
    cases row.update <;> rfl

/-! ## Every call -/

namespace GuestCall

/-- Where the call accesses memory. -/
def start : GuestCall → Nat
  | update helper args => (helper.row.target args).toNat
  | compareExchangePair address => address.toNat

/-- How many bytes it accesses. -/
def size : GuestCall → Nat
  | update helper _ => helper.row.size
  | compareExchangePair _ => 16

/-- The fault it reports. -/
def fault : GuestCall → GuestFault
  | update helper args => helper.row.fault args
  | compareExchangePair address => ⟨address, 16⟩

/-- The arguments are valid : an exchange names a register, and a pair is aligned. -/
def Valid : GuestCall → Prop
  | update helper args => helper.row.update.takesRegister = true → args.encoding.toNat < 16
  | compareExchangePair address => address &&& 15 = 0

/-- The two words of memory at an address. -/
def wordsAt (memory : Nat → Byte) (address : Nat) : BitVec 64 × BitVec 64 :=
  (ofLittleEndian 64 8 (bytesAt memory address 16),
    ofLittleEndian 64 8 ((bytesAt memory address 16).drop 8))

/-- Memory after the operation. -/
def memoryAfter (g : GuestState) (memory : Nat → Byte) : GuestCall → Nat → Byte
  | update helper args =>
    overwrite memory (helper.row.target args).toNat
      (littleEndian helper.row.size (helper.row.outcome args g memory).1)
  | compareExchangePair address =>
    if (g.regs .rax, g.regs .rdx) = wordsAt memory address.toNat then
      overwrite memory address.toNat (littleEndian 8 (g.regs .rbx) ++ littleEndian 8 (g.regs .rcx))
    else memory

/-- The registers and the flags after the operation. -/
def Leaves (g : GuestState) (memory : Nat → Byte) (g' : GuestState) : GuestCall → Prop
  | update helper args =>
    ∃ rflags, (helper.row.outcome args g memory).2.Meets g.rflags rflags ∧
      g' = { helper.row.registersAfter args g memory with rflags := rflags }
  | compareExchangePair address =>
    if (g.regs .rax, g.regs .rdx) = wordsAt memory address.toNat then
      g' = { g with rflags := g.rflags ||| flagZero }
    else
      g' = { (g.setReg .rax (wordsAt memory address.toNat).1).setReg .rdx
               (wordsAt memory address.toNat).2 with rflags := g.rflags &&& ~~~flagZero }

/-- What a call does at a state and a memory : its operation on all bytes, or a fault that leaves
both. -/
structure Computes (call : GuestCall) (g : GuestState) (memory : Nat → Byte) (s : AddressSpace) :
    Prop where
  returns : (call.run g s).1 = none ↔ call.Valid ∧ Permits s call.start call.size
  fault : ∀ fault, (call.run g s).1 = some fault →
    fault = call.fault ∧ (call.run g s).2.1 = g ∧ SameMemory s (call.run g s).2.2
  stores : (call.run g s).1 = none →
    Shown (call.memoryAfter g memory) (call.run g s).2.2 ∧
      ∀ a n, NoneFails s a n → NoneFails (call.run g s).2.2 a n
  registers : (call.run g s).1 = none → call.Leaves g memory (call.run g s).2.1

/-- A call whose accesses threw. -/
theorem Computes.of_fault {call : GuestCall} {g : GuestState} {memory : Nat → Byte}
    {s s' : AddressSpace} (hrun : call.run g s = (some call.fault, g, s'))
    (hnot : ¬(call.Valid ∧ Permits s call.start call.size)) (hsame : SameMemory s s') :
    call.Computes g memory s := by
  refine ⟨?_, ?_, ?_, ?_⟩ <;> rw [hrun]
  · exact ⟨fun h => absurd h (by simp), fun h => absurd h hnot⟩
  · rintro fault hfault
    exact ⟨(Option.some.inj hfault).symm, rfl, hsame⟩
  · exact fun h => absurd h (by simp)
  · exact fun h => absurd h (by simp)

/-- A call whose accesses returned. -/
theorem Computes.of_return {call : GuestCall} {g g' : GuestState} {memory : Nat → Byte}
    {s s' : AddressSpace} (hrun : call.run g s = (none, g', s'))
    (hall : call.Valid ∧ Permits s call.start call.size)
    (hshown : Shown (call.memoryAfter g memory) s')
    (hpages : ∀ a n, NoneFails s a n → NoneFails s' a n)
    (hleaves : call.Leaves g memory g') : call.Computes g memory s := by
  refine ⟨?_, ?_, ?_, ?_⟩ <;> rw [hrun]
  · exact ⟨fun _ => hall, fun _ => rfl⟩
  · exact fun fault hfault => absurd hfault (by simp)
  · exact fun _ => ⟨hshown, hpages⟩
  · exact fun _ => hleaves

variable {g : GuestState} {memory : Nat → Byte} {s : AddressSpace}

theorem computes_update (helper : GuestHelper) (args : GuestArguments) (hs : Shown memory s)
    (hno : NoneFails s (helper.row.target args).toNat helper.row.size) :
    (GuestCall.update helper args).Computes g memory s := by
  have hproper := helper.row_proper
  by_cases hencoding : (helper.row.update.takesRegister && 15 < args.encoding.toNat) = true
  · have hrun : helper.row.modifyGuest args g s = (some (helper.row.fault args), g, s) :=
      if_pos hencoding
    simp only [Bool.and_eq_true, decide_eq_true_eq] at hencoding
    refine .of_fault hrun (fun h => ?_) (.refl s)
    have hlt := h.1 hencoding.1
    omega
  · have hvalid : (GuestCall.update helper args).Valid := by
      simp only [Bool.and_eq_true, decide_eq_true_eq, not_and] at hencoding
      exact fun h => by have := hencoding h; omega
    have haccess := helper.row.access_spec (g := g) hproper hs hno
    rcases hrun : helper.row.access args g s with ⟨e | original, s'⟩
    · unfold Post at haccess
      rw [hrun] at haccess
      obtain ⟨hsame, hnot⟩ := haccess
      have hcall : (GuestCall.update helper args).run g s =
          (some (helper.row.fault args), g, s') := by
        rw [GuestCall.run, GuestRow.modifyGuest, if_neg hencoding, hrun]
      exact .of_fault hcall (fun h => hnot h.2) hsame
    · obtain ⟨hpermits, horiginal, hshown, hpages⟩ := Post.of_ok haccess hrun
      rw [horiginal, GuestRow.extended_word] at hshown
      have hresult : BitVec.setWidth helper.row.width.bits ((helper.row.update.stored
          helper.row.width g ((helper.row.word args memory).setWidth 64) args.operand).getD
            ((helper.row.word args memory).setWidth 64)) = (helper.row.outcome args g memory).1 :=
        stored_result helper.row.update
      have hcall : (GuestCall.update helper args).run g s =
          (none, helper.row.finish args g original
            ((Register.ofIndex? args.encoding.toNat).getD .rax), s') := by
        rw [GuestCall.run, GuestRow.modifyGuest, if_neg hencoding, hrun]
      refine .of_return hcall ⟨hvalid, hpermits⟩ ?_ hpages ?_
      · rw [memoryAfter, ← hresult, littleEndian_setWidth helper.row.bits_eq.ge]
        exact hshown
      · refine ⟨_, flags_meet helper.row.update hproper.wide hresult g.rflags, ?_⟩
        rw [horiginal, GuestRow.extended_word]
        exact helper.row.finish_eq args g _

theorem pairMatches_iff {low high : BitVec 64} :
    pairMatches g low high = true ↔ (g.regs .rax, g.regs .rdx) = (low, high) := by
  simp [pairMatches]

theorem pairAccess_spec (address : BitVec 64) (hs : Shown memory s)
    (hno : NoneFails s address.toNat 16) :
    Post (pairAccess g address) s
      (fun words s' => (address &&& 15 = 0 ∧ Permits s address.toNat 16) ∧
        words = wordsAt memory address.toNat ∧
        Shown ((compareExchangePair address).memoryAfter g memory) s' ∧
        ∀ a n, NoneFails s a n → NoneFails s' a n)
      fun _ s' => SameMemory s s' ∧ ¬(address &&& 15 = 0 ∧ Permits s address.toNat 16) := by
  have hr := hs.regular
  unfold pairAccess failIf
  refine Post.bind (Post.raiseIf (fun hodd => ⟨.refl s, fun h => ?_⟩) fun heven => ?_)
  · rw [h.1] at hodd
    exact absurd hodd (by decide)
  have haligned : address &&& 15 = 0 := by simpa using heven
  refine Post.bind ((validateAccess_permits hr _ _).mono ?_
    fun _ _ h => ⟨h.1.sameMemory hr, fun h' => h.2 h'.2⟩)
  rintro _ s1 ⟨hcalm1, hwrite⟩
  refine Post.bind ((readInto_permits (hcalm1.shown hs) (hcalm1.noneFails hr hno)).mono ?_ ?_)
  · rintro _ s2 ⟨hcalm2, rfl, hreadable⟩
    have hcalm := hcalm1.trans hcalm2
    have hs2 := hcalm.shown hs
    have hpermits : Permits s address.toNat 16 := fun k hk =>
      ⟨(hreadable k hk).of_mappings hcalm1.touches.mappings_eq.symm, hwrite k hk⟩
    change Post (storePair g address (pairMatches g (wordsAt memory address.toNat).1
      (wordsAt memory address.toNat).2) >>=
        fun _ => Pure.pure (wordsAt memory address.toNat)) s2 _ _
    unfold storePair memoryAfter
    simp only [pairMatches_iff]
    split
    · have hno2 : NoneFails s2 address.toNat (littleEndian 8 (g.regs .rbx) ++
          littleEndian 8 (g.regs .rcx)).length := by
        simpa using hcalm.noneFails hr hno
      refine Post.bind ((writeBytes_permits hs2 hno2).mono ?_ ?_)
      · rintro _ s3 ⟨hs3, hpages, -⟩
        exact Post.pure ⟨⟨haligned, hpermits⟩, rfl, hs3,
          fun a n h => hpages a n (hcalm.noneFails hr h)⟩
      · rintro _ s3 ⟨hsame, hnot⟩
        refine ⟨(hcalm.sameMemory hr).trans hsame, fun hall => hnot fun k hk => ?_⟩
        exact hcalm.touches.samePermits.mayWrite (hall.2 k (by simpa using hk)).2
    · exact Post.bind (Post.pure (Post.pure ⟨⟨haligned, hpermits⟩, rfl, hs2,
        fun a n h => hcalm.noneFails hr h⟩))
  · rintro _ s2 ⟨hcalm2, hnot⟩
    refine ⟨(hcalm1.trans hcalm2).sameMemory hr, fun hall => hnot fun k hk => ?_⟩
    exact (hall.2 k hk).1.of_mappings hcalm1.touches.mappings_eq

theorem computes_pair (address : BitVec 64) (hs : Shown memory s)
    (hno : NoneFails s address.toNat 16) :
    (GuestCall.compareExchangePair address).Computes g memory s := by
  have haccess := pairAccess_spec (g := g) address hs hno
  rcases hrun : pairAccess g address s with ⟨e | ⟨low, high⟩, s'⟩
  · unfold Post at haccess
    rw [hrun] at haccess
    obtain ⟨hsame, hnot⟩ := haccess
    have hcall : (GuestCall.compareExchangePair address).run g s = (some ⟨address, 16⟩, g, s') := by
      rw [GuestCall.run, compareExchangeGuestPair, hrun]
    exact .of_fault hcall hnot hsame
  · obtain ⟨hall, hwords, hshown, hpages⟩ := Post.of_ok haccess hrun
    have hcall : (GuestCall.compareExchangePair address).run g s =
        (none, finishPair g low high, s') := by
      rw [GuestCall.run, compareExchangeGuestPair, hrun]
    refine .of_return hcall hall hshown hpages ?_
    unfold Leaves finishPair
    simp only [pairMatches_iff, ← hwords]
    split <;> rfl

theorem computes (call : GuestCall) (hs : Shown memory s)
    (hno : NoneFails s call.start call.size) : call.Computes g memory s := by
  cases call with
  | update helper args => exact computes_update helper args hs hno
  | compareExchangePair address => exact computes_pair address hs hno

end GuestCall

/-! ## Runs -/

/-- The architecture does the operations one after the other. -/
inductive Executes : List GuestCall → GuestState → (Nat → Byte) → GuestState → (Nat → Byte) → Prop
  | nil {g : GuestState} {memory : Nat → Byte} : Executes [] g memory g memory
  | cons {call : GuestCall} {rest : List GuestCall} {g g' g'' : GuestState}
      {memory memory'' : Nat → Byte} (valid : call.Valid) (leaves : call.Leaves g memory g')
      (run : Executes rest g' (call.memoryAfter g memory) g'' memory'') :
      Executes (call :: rest) g memory g'' memory''

/-- How a run of calls ends : all of them are done, or those before the first whose arguments or
bytes are not permitted, which reports its fault and leaves what the ones before it left. -/
structure RunEnds (calls : List GuestCall) (g : GuestState) (memory : Nat → Byte)
    (seen : Option GuestFault × GuestState × AddressSpace) (executed rest : List GuestCall)
    (memory' : Nat → Byte) : Prop where
  split : calls = executed ++ rest
  executes : Executes executed g memory seen.2.1 memory'
  depicts : Depicts memory' seen.2.2.settled
  fault : seen.1 = rest.head?.map GuestCall.fault
  refused : ∀ call ∈ rest.head?, ¬(call.Valid ∧ Permits seen.2.2 call.start call.size)

/-- Registers to exchange from. -/
def exchanging : GuestState where
  regs
    | .rbx => 7
    | _ => 0
  rip := 0
  rflags := 2
  xmm _ := (0, 0)
  ymmUpper _ := (0, 0)
  gsBase := 0

/-- An exchange across two pages, an exchange of a pair, and one of a pair that is not aligned. -/
def exchanges : List GuestCall :=
  [.update .lockedExchangeAddGuest64 { address := 0x1FFC, operand := 5, encoding := 3 },
    .compareExchangePair 0x2010, .compareExchangePair 0x2008]

end X86

end Rosa
