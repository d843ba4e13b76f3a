import Rosa.Guest.WordReads
import Rosa.Dbt.SimdMemory
import Rosa.Darwin.FailedTraps

/-!
# String operations

`repeatMoveByte` and `repeatStore` of `dbt/RuntimeHelpers.cpp` run an element at a time and update
the registers after it. The architecture is the same loop over a picture of the memory
(`memoryAfter`, `advanced`). A run in which every access that is tried meets no page whose
callback throws ends after all elements, or at the first one that may not access its memory, with
the registers and the picture that the elements before it have left; so a later run goes on from
there (`Restartable`).
-/

namespace Rosa

open Rosa.Computation AddressSpace

/-! ## The helpers -/

/-- `fault`, `faultAddress` and `faultSize` of the context. -/
structure StringFault where
  fault : GuestFault
  error : AccessError

/-- What a helper does with guest memory. -/
abbrev StringStep (α : Type) := Computation AddressSpace StringFault α

/-- An access whose throw is reported at an address. -/
def faulting {α : Type} (address : BitVec 64) (size : Nat) (x : Access α) : StringStep α := fun s =>
  match x s with
  | (.ok a, s') => (.ok a, s')
  | (.error e, s') => (.error ⟨⟨address, size⟩, e⟩, s')

/-- The loop of a helper, which ends when `RCX` is zero. An element is done, or reports a fault and
leaves the registers. -/
def repeatElements (element : GuestState → StringStep GuestState) :
    Nat → GuestState → AddressSpace → Option StringFault × GuestState × AddressSpace
  | 0, g, s => (none, g, s)
  | fuel + 1, g, s =>
    if g.regs .rcx = 0 then (none, g, s)
    else
      match element g s with
      | (.ok g', s') => repeatElements element fuel g' s'
      | (.error fault, s') => (some fault, g, s')

/-- The body of the loop of `repeatMoveByte`. -/
def moveElement (decrement : Bool) (g : GuestState) : StringStep GuestState := do
  let value ← faulting (g.regs .rsi) 1 (readU8 (g.regs .rsi))
  faulting (g.regs .rdi) 1 (writeBytes (g.regs .rdi).toNat [value])
  let g := g.setReg .rsi (if decrement then g.regs .rsi - 1 else g.regs .rsi + 1)
  let g := g.setReg .rdi (if decrement then g.regs .rdi - 1 else g.regs .rdi + 1)
  pure (g.setReg .rcx (g.regs .rcx - 1))

/-- `repeatMoveByte`. Each turn lowers `RCX`, so there are as many as it says. -/
def repeatMoveByte (g : GuestState) (s : AddressSpace) :
    Option StringFault × GuestState × AddressSpace :=
  repeatElements (moveElement ((g.rflags &&& flagDirection) != 0)) (g.regs .rcx).toNat g s

/-- The body of the loop of `repeatStore`. -/
def storeElement (value widthBytes step : BitVec 64) (g : GuestState) : StringStep GuestState := do
  faulting (g.regs .rdi) widthBytes.toNat
    (writeBytes (g.regs .rdi).toNat (littleEndian widthBytes.toNat value))
  let g := g.setReg .rdi (g.regs .rdi + step)
  pure (g.setReg .rcx (g.regs .rcx - 1))

/-- `repeatStore`. -/
def repeatStore (widthBytes : BitVec 64) (g : GuestState) (s : AddressSpace) :
    Option StringFault × GuestState × AddressSpace :=
  if widthBytes ≠ 1 ∧ widthBytes ≠ 2 ∧ widthBytes ≠ 4 ∧ widthBytes ≠ 8 then
    (some ⟨⟨g.regs .rdi, widthBytes.toNat⟩,
      .thrown "generated REP STOS has an invalid element width"⟩, g, s)
  else
    let value := g.regs .rax &&&
      (if widthBytes = 8 then BitVec.allOnes 64 else (1#64 <<< (widthBytes.toNat * 8)) - 1)
    let step := if (g.rflags &&& flagDirection) != 0 then 0 - widthBytes else widthBytes
    repeatElements (storeElement value widthBytes step) (g.regs .rcx).toNat g s

/-! ## The architecture -/

/-- `rep movsb`, or `rep stos` of a width. -/
inductive StringOperation
  | moveByte
  | store (width : Width)
  deriving DecidableEq, Repr

namespace StringOperation

variable (op : StringOperation)

/-- The size of an element in bytes. -/
def bytes : StringOperation → Nat
  | moveByte => 1
  | store width => width.bits / 8

/-- The helper behind the operation. -/
def run : StringOperation → GuestState → AddressSpace → Option StringFault × GuestState × AddressSpace
  | moveByte => repeatMoveByte
  | store width => repeatStore (BitVec.ofNat 64 (width.bits / 8))

/-- How far an element moves the pointers. -/
def step (g : GuestState) : BitVec 64 :=
  if g.rflags &&& flagDirection = 0 then BitVec.ofNat 64 op.bytes else -BitVec.ofNat 64 op.bytes

/-- The registers after `k` elements. -/
def advanced (g : GuestState) (k : Nat) : GuestState :=
  { g with
    regs := fun
      | .rcx => g.regs .rcx - BitVec.ofNat 64 k
      | .rdi => g.regs .rdi + BitVec.ofNat 64 k * op.step g
      | .rsi => if op = moveByte then g.regs .rsi + BitVec.ofNat 64 k * op.step g else g.regs .rsi
      | r => g.regs r }

/-- The bytes that an element writes. -/
def element (memory : Nat → Byte) (g : GuestState) : List Byte :=
  match op with
  | moveByte => [memory (g.regs .rsi).toNat]
  | store width => littleEndian (width.bits / 8) (g.regs .rax)

/-- The memory after `k` elements, one after the other. -/
def memoryAfter (memory : Nat → Byte) (g : GuestState) : Nat → Nat → Byte
  | 0 => memory
  | k + 1 =>
    overwrite (memoryAfter memory g k) ((op.advanced g k).regs .rdi).toNat
      (op.element (memoryAfter memory g k) (op.advanced g k))

/-- The element may be read. -/
def Readable (s : AddressSpace) (g : GuestState) : Prop :=
  op = moveByte → s.ReadableAt (g.regs .rsi).toNat

/-- The mappings permit the accesses of an element. -/
def Permitted (s : AddressSpace) (g : GuestState) : Prop :=
  op.Readable s g ∧ ∀ k < op.bytes, s.MayWrite ((g.regs .rdi).toNat + k)

/-- No access that an element tries meets a page whose callback throws. -/
def MeetsNone (s : AddressSpace) (g : GuestState) : Prop :=
  (op = moveByte → NoneFails s (g.regs .rsi).toNat 1) ∧
    (op.Readable s g → NoneFails s (g.regs .rdi).toNat op.bytes)

/-- An element can be done. -/
def Accessible (s : AddressSpace) (g : GuestState) : Prop :=
  op.Permitted s g ∧ op.MeetsNone s g

/-- The run has done all its elements. -/
structure Completes (g : GuestState) (s : AddressSpace) (memory : Nat → Byte) : Prop where
  returns : (op.run g s).1 = none
  registers : (op.run g s).2.1 = op.advanced g (g.regs .rcx).toNat
  memory : Depicts (op.memoryAfter memory g (g.regs .rcx).toNat) (op.run g s).2.2.settled

/-- The fault is that of an access of the element, in a space with the elements before it. -/
def Reports (s : AddressSpace) (memory : Nat → Byte) (g : GuestState) (k : Nat)
    (fault : StringFault) : Prop :=
  ∃ before : AddressSpace, Depicts (op.memoryAfter memory g k) before.settled ∧
    SamePermits s before ∧
    ((op = moveByte ∧ fault.fault = ⟨(op.advanced g k).regs .rsi, 1⟩ ∧
        (readU8 ((op.advanced g k).regs .rsi) before).1 = .error fault.error) ∨
      (fault.fault = ⟨(op.advanced g k).regs .rdi, op.bytes⟩ ∧
        (writeBytes ((op.advanced g k).regs .rdi).toNat
          (op.element (op.memoryAfter memory g k) (op.advanced g k)) before).1 =
            .error fault.error))

/-- The run has stopped at an element, the first that cannot be done. -/
structure StopsAt (g : GuestState) (s : AddressSpace) (memory : Nat → Byte) (k : Nat) : Prop where
  before : k < (g.regs .rcx).toNat
  accessible : ∀ j < k, op.Accessible s (op.advanced g j)
  first : ¬op.Accessible s (op.advanced g k)
  fault : ∃ fault, (op.run g s).1 = some fault ∧ op.Reports s memory g k fault
  registers : (op.run g s).2.1 = op.advanced g k
  memory : Depicts (op.memoryAfter memory g k) (op.run g s).2.2.settled

/-- A run from the element where another one stopped ends like a run without a stop. -/
def Resumes (g : GuestState) (memory : Nat → Byte) (k : Nat) : Prop :=
  ∀ t whole : AddressSpace, Regular t → Regular whole →
    Depicts (op.memoryAfter memory g k) t.settled → Depicts memory whole.settled →
    (∀ j, k ≤ j → j < (g.regs .rcx).toNat → op.Accessible t (op.advanced g j)) →
    (∀ j < (g.regs .rcx).toNat, op.Accessible whole (op.advanced g j)) →
    (op.run (op.advanced g k) t).1 = none ∧ (op.run g whole).1 = none ∧
      (op.run (op.advanced g k) t).2.1 = (op.run g whole).2.1 ∧
      ∃ memory', Depicts memory' (op.run (op.advanced g k) t).2.2.settled ∧
        Depicts memory' (op.run g whole).2.2.settled

/-- The helper has the effect of the loop of the architecture, and can be interrupted. -/
def Restartable (g : GuestState) (s : AddressSpace) : Prop :=
  ∀ memory, Depicts memory s.settled →
    ((∀ j < (g.regs .rcx).toNat, op.Accessible s (op.advanced g j)) ∧ op.Completes g s memory) ∨
    ∃ k, op.StopsAt g s memory k ∧ op.Resumes g memory k

/-- Every access that a run tries, up to the element that stops it, meets no page whose callback
throws. -/
def Undisturbed (g : GuestState) (s : AddressSpace) : Prop :=
  ∀ j < (g.regs .rcx).toNat, (∀ i < j, op.Permitted s (op.advanced g i)) →
    op.MeetsNone s (op.advanced g j)

/-! ## Elements in sequence -/

variable {op} {g : GuestState} {s s' : AddressSpace} {memory : Nat → Byte} {k n : Nat}

theorem advanced_zero : op.advanced g 0 = g := by
  cases g with
  | mk regs rip rflags xmm ymmUpper gsBase =>
    simp only [advanced, GuestState.mk.injEq, and_true]
    funext r
    cases r <;> simp

theorem advanced_advanced (j : Nat) :
    op.advanced (op.advanced g k) j = op.advanced g (k + j) := by
  have hstep : op.step (op.advanced g k) = op.step g := rfl
  have hsum : BitVec.ofNat 64 (k + j) = BitVec.ofNat 64 k + BitVec.ofNat 64 j :=
    BitVec.ofNat_add k j
  unfold advanced at hstep ⊢
  simp only [hstep, hsum, GuestState.mk.injEq, and_true]
  funext r
  cases r with
  | rcx => ring
  | rdi => ring
  | rsi =>
    by_cases hop : op = moveByte
    · simp only [hop, if_true]
      ring
    · simp only [hop, if_false]
  | _ => rfl

theorem memoryAfter_add (j : Nat) :
    op.memoryAfter (op.memoryAfter memory g k) (op.advanced g k) j =
      op.memoryAfter memory g (k + j) := by
  induction j with
  | zero => rfl
  | succ j ih =>
    rw [memoryAfter, ih, advanced_advanced]
    rfl

/-- The body of the loop, with the value and the direction of the first registers. -/
def elementStep : StringOperation → GuestState → GuestState → StringStep GuestState
  | moveByte, first => moveElement ((first.rflags &&& flagDirection) != 0)
  | store width, first =>
    let widthBytes := BitVec.ofNat 64 (width.bits / 8)
    storeElement
      (first.regs .rax &&&
        (if widthBytes = 8 then BitVec.allOnes 64 else (1#64 <<< (widthBytes.toNat * 8)) - 1))
      widthBytes (if (first.rflags &&& flagDirection) != 0 then 0 - widthBytes else widthBytes)

theorem run_eq : op.run g s = repeatElements (op.elementStep g) (g.regs .rcx).toNat g s := by
  cases op with
  | moveByte => rfl
  | store width => cases width <;> rfl

theorem elementStep_advanced : op.elementStep (op.advanced g k) = op.elementStep g := by
  cases op <;> rfl

/-! ## One element -/

/-- The registers after an element, as the helpers compute them. -/
theorem advanced_one_move (g : GuestState) :
    ((g.setReg .rsi (if (g.rflags &&& flagDirection) != 0 then g.regs .rsi - 1
        else g.regs .rsi + 1)).setReg .rdi
        (if (g.rflags &&& flagDirection) != 0 then g.regs .rdi - 1 else g.regs .rdi + 1)).setReg
      .rcx (g.regs .rcx - 1) = moveByte.advanced g 1 := by
  have hstep : moveByte.step g = if g.rflags &&& flagDirection = 0 then 1 else -1 := rfl
  unfold advanced
  simp only [hstep, GuestState.setReg, GuestState.mk.injEq, and_true]
  funext r
  by_cases hd : g.rflags &&& flagDirection = 0#64
  · cases r <;> simp [Function.update, hd]
  · cases r <;> simp [Function.update, hd, sub_eq_add_neg]

theorem advanced_one_store (width : Width) (g : GuestState) :
    (g.setReg .rdi (g.regs .rdi + (if (g.rflags &&& flagDirection) != 0 then
        0 - BitVec.ofNat 64 (width.bits / 8) else BitVec.ofNat 64 (width.bits / 8)))).setReg
      .rcx (g.regs .rcx - 1) = (store width).advanced g 1 := by
  have hstep : (store width).step g = if g.rflags &&& flagDirection = 0 then
    BitVec.ofNat 64 (width.bits / 8) else -BitVec.ofNat 64 (width.bits / 8) := rfl
  unfold advanced
  simp only [hstep, GuestState.setReg, GuestState.mk.injEq, and_true]
  funext r
  by_cases hd : g.rflags &&& flagDirection = 0#64
  · cases r <;> simp [Function.update, hd]
  · cases r <;> simp [Function.update, hd]

theorem littleEndian_and {value mask : BitVec 64} {n : Nat}
    (hmask : ∀ j < 8 * n, mask.getLsbD j = true) :
    littleEndian n (value &&& mask) = littleEndian n value := by
  refine List.map_congr_left fun i hi => ?_
  have hi' : i < n := List.mem_range.mp hi
  apply BitVec.eq_of_getLsbD_eq
  intro j hj
  simp only [BitVec.getLsbD_setWidth, BitVec.getLsbD_ushiftRight, BitVec.getLsbD_and,
    hmask (8 * i + j) (by omega), Bool.and_true]

/-- The mask of `repeatStore` keeps the bytes of the element. -/
theorem littleEndian_masked (width : Width) (value : BitVec 64) :
    littleEndian (width.bits / 8)
      (value &&& (if BitVec.ofNat 64 (width.bits / 8) = 8 then BitVec.allOnes 64
        else (1#64 <<< ((BitVec.ofNat 64 (width.bits / 8)).toNat * 8)) - 1)) =
      littleEndian (width.bits / 8) value := by
  refine littleEndian_and ?_
  cases width <;> decide

theorem faulting_run {α : Type} (address : BitVec 64) (size : Nat) (x : Access α)
    (s : AddressSpace) : faulting address size x s =
      ((x s).1.mapError (StringFault.mk ⟨address, size⟩), (x s).2) := by
  unfold faulting
  rcases x s with ⟨_ | a, s'⟩ <;> rfl

/-- Reading a byte leaves the space as it was seen, if its page does not throw. -/
theorem readU8_final (hr : Regular s) {base : BitVec 64} (hno : NoneFails s base.toNat 1) :
    Calm s (readU8 base s).2 := by
  have hcalm := readWord_calm hr hno
  unfold readU8 readUnsigned
  rcases hrun : readWord base.toNat 1 s with ⟨e | bytes, s1⟩
  · rw [bind_error hrun]
    rwa [hrun] at hcalm
  · rw [bind_ok hrun]
    rwa [hrun] at hcalm

/-- What the write of an element does. -/
theorem write_element (hs : Shown memory s) (address : BitVec 64) (data : List Byte)
    (hno : NoneFails s address.toNat data.length) :
    ((∀ k < data.length, s.MayWrite (address.toNat + k)) ∧ ∃ s',
      writeBytes address.toNat data s = (.ok (), s') ∧
      Shown (overwrite memory address.toNat data) s' ∧ SamePermits s s' ∧
      ∀ a n, NoneFails s a n → NoneFails s' a n) ∨
    (¬(∀ k < data.length, s.MayWrite (address.toNat + k)) ∧ ∃ e s',
      writeBytes address.toNat data s = (.error e, s') ∧ Depicts memory s'.settled) := by
  have hiff := writeBytes_returns_iff hs.regular hno
  have hshown := writeBytes_shown hs hno
  rcases hrun : writeBytes address.toNat data s with ⟨e | u, s'⟩
  · refine .inr ⟨fun hall => ?_, e, s', rfl, (Post.of_error hshown hrun).depicts hs.depicts⟩
    obtain ⟨s1, hs1⟩ := hiff.mpr hall
    rw [hrun] at hs1
    cases hs1
  · have hdone := Post.of_ok hshown hrun
    exact .inl ⟨hiff.mp ⟨s', hrun⟩, s', rfl, hdone⟩

/-- An element that is permitted is done, and another one reports a fault. -/
theorem element_spec (hs : Shown memory s) (hno : op.MeetsNone s g) :
    (op.Permitted s g ∧ ∃ s', op.elementStep g g s = (.ok (op.advanced g 1), s') ∧
      Shown (op.memoryAfter memory g 1) s' ∧ SamePermits s s' ∧
      ∀ a n, NoneFails s a n → NoneFails s' a n) ∨
    (¬op.Permitted s g ∧ ∃ fault s', op.elementStep g g s = (.error fault, s') ∧
      Depicts memory s'.settled ∧ op.Reports s memory g 0 fault) := by
  have hr := hs.regular
  cases op with
  | store width =>
    have hdata := littleEndian_masked width (g.regs .rax)
    have hlength : (littleEndian (width.bits / 8) (g.regs .rax)).length = width.bits / 8 :=
      length_littleEndian _
    have hwidth : (BitVec.ofNat 64 (width.bits / 8)).toNat = width.bits / 8 := by
      cases width <;> rfl
    have hsource : (store width).Readable s g := fun h => by cases h
    have hstep (s : AddressSpace) : (store width).elementStep g g s =
        (faulting (g.regs .rdi) (width.bits / 8)
          (writeBytes (g.regs .rdi).toNat (littleEndian (width.bits / 8) (g.regs .rax))) >>=
            fun _ => pure ((store width).advanced g 1)) s := by
      rw [← hdata, ← advanced_one_store]
      simp only [elementStep, storeElement, hwidth]
      rfl
    rcases write_element hs (g.regs .rdi) (littleEndian (width.bits / 8) (g.regs .rax))
        (by rw [hlength]; exact hno.2 hsource) with
      ⟨hall, s', hrun, hshown, hpermits, hpages⟩ | ⟨hnot, e, s', hrun, hdepicts⟩
    · rw [hlength] at hall
      refine .inl ⟨⟨hsource, hall⟩, s', ?_, ?_, hpermits, hpages⟩
      · rw [hstep, bind_ok (by rw [faulting_run, hrun]; rfl)]
        rfl
      · simpa [memoryAfter, advanced_zero, element] using hshown
    · rw [hlength] at hnot
      refine .inr ⟨fun h => hnot h.2, ⟨⟨g.regs .rdi, width.bits / 8⟩, e⟩, s', ?_, hdepicts, ?_⟩
      · rw [hstep, bind_error (by rw [faulting_run, hrun]; rfl)]
      · refine ⟨s, hs.depicts, rfl, .inr ?_⟩
        simp [advanced_zero, bytes, element, hrun]
  | moveByte =>
    have hsource := hno.1 rfl
    have hcalm := readU8_final hr hsource
    have hstep (s : AddressSpace) : moveByte.elementStep g g s =
        (faulting (g.regs .rsi) 1 (readU8 (g.regs .rsi)) >>= fun value =>
          faulting (g.regs .rdi) 1 (writeBytes (g.regs .rdi).toNat [value]) >>= fun _ =>
            pure (moveByte.advanced g 1)) s := by
      rw [← advanced_one_move]
      rfl
    by_cases hreadable : s.ReadableAt (g.regs .rsi).toNat
    · have hload : s.CanLoad (g.regs .rsi).toNat :=
        ⟨⟨hreadable, hsource⟩, hr.backedAt hreadable⟩
      have hread : (readU8 (g.regs .rsi) s).1 = .ok (memory (g.regs .rsi).toNat) :=
        (readU8_ok_iff hr.orderly hs.depicts).mpr ⟨hload, rfl⟩
      obtain ⟨s1, hrun1⟩ : ∃ s1, readU8 (g.regs .rsi) s = (.ok (memory (g.regs .rsi).toNat), s1) :=
        ⟨(readU8 (g.regs .rsi) s).2, Prod.ext hread rfl⟩
      rw [hrun1] at hcalm
      have hs1 := hcalm.shown hs
      have hmaps := SamePermits.of_mappings hcalm.touches.mappings_eq
      have hfirst : faulting (g.regs .rsi) 1 (readU8 (g.regs .rsi)) s =
          (.ok (memory (g.regs .rsi).toNat), s1) := by
        rw [faulting_run, hrun1]
        rfl
      rcases write_element hs1 (g.regs .rdi) [memory (g.regs .rsi).toNat]
          (hcalm.noneFails hr (hno.2 fun _ => hreadable)) with
        ⟨hall, s', hrun, hshown, hpermits, hpages⟩ | ⟨hnot, e, s', hrun, hdepicts⟩
      · refine .inl ⟨⟨fun _ => hreadable, fun k hk => hmaps.symm.mayWrite (hall k hk)⟩, s', ?_, ?_,
          hpermits.trans hmaps, fun a n hn => hpages a n (hcalm.noneFails hr hn)⟩
        · rw [hstep, bind_ok hfirst, bind_ok (by rw [faulting_run, hrun]; rfl)]
          rfl
        · simpa [memoryAfter, advanced_zero, element] using hshown
      · refine .inr ⟨fun h => hnot fun k hk => hmaps.mayWrite (h.2 k hk),
          ⟨⟨g.regs .rdi, 1⟩, e⟩, s', ?_, hdepicts, ?_⟩
        · rw [hstep, bind_ok hfirst, bind_error (by rw [faulting_run, hrun]; rfl)]
        · refine ⟨s1, hs1.depicts, hmaps, .inr ?_⟩
          simp [advanced_zero, bytes, memoryAfter, element, hrun]
    · have hnot : ¬moveByte.Permitted s g := fun h => hreadable (h.1 rfl)
      rcases hrun : readU8 (g.regs .rsi) s with ⟨e | value, s1⟩
      · rw [hrun] at hcalm
        refine .inr ⟨hnot, ⟨⟨g.regs .rsi, 1⟩, e⟩, s1, ?_, (hcalm.shown hs).depicts, ?_⟩
        · rw [hstep, bind_error (by rw [faulting_run, hrun]; rfl)]
        · refine ⟨s, hs.depicts, rfl, .inl ?_⟩
          simp [advanced_zero, hrun]
      · exact absurd ((readU8_ok_iff hr.orderly hs.depicts).mp (by rw [hrun])).1.1.1 hreadable

/-! ## The loop -/

theorem Permitted.samePermits (h : op.Permitted s g) (hs : SamePermits s s') : op.Permitted s' g :=
  ⟨fun hop => hs.readableAt (h.1 hop), fun k hk => hs.mayWrite (h.2 k hk)⟩

theorem MeetsNone.kept (h : op.MeetsNone s g) (hs : SamePermits s s')
    (hpages : ∀ a n, NoneFails s a n → NoneFails s' a n) : op.MeetsNone s' g :=
  ⟨fun hop => hpages _ _ (h.1 hop),
    fun hreadable => hpages _ _ (h.2 fun hop => hs.symm.readableAt (hreadable hop))⟩

theorem Reports.later {memory' : Nat → Byte} {fault : StringFault} (hs : SamePermits s s')
    (hmemory : memory' = op.memoryAfter memory g 1)
    (h : op.Reports s' memory' (op.advanced g 1) k fault) :
    op.Reports s memory g (1 + k) fault := by
  subst hmemory
  unfold Reports at h
  rw [memoryAfter_add, advanced_advanced] at h
  obtain ⟨before, hdepicts, hpermits, hcase⟩ := h
  exact ⟨before, hdepicts, hpermits.trans hs, hcase⟩

/-- A run that is not disturbed does all its elements, or stops at the first that is not
permitted. -/
theorem repeatElements_spec : ∀ (n : Nat) {g : GuestState} {s : AddressSpace} {memory : Nat → Byte},
    (g.regs .rcx).toNat = n → Shown memory s → op.Undisturbed g s →
    ((∀ j < n, op.Permitted s (op.advanced g j)) ∧ ∃ s',
      repeatElements (op.elementStep g) n g s = (none, op.advanced g n, s') ∧
      Shown (op.memoryAfter memory g n) s') ∨
    ∃ k < n, (∀ j < k, op.Permitted s (op.advanced g j)) ∧ ¬op.Permitted s (op.advanced g k) ∧
      ∃ fault s', repeatElements (op.elementStep g) n g s = (some fault, op.advanced g k, s') ∧
        Depicts (op.memoryAfter memory g k) s'.settled ∧ op.Reports s memory g k fault
  | 0, g, s, memory, _, hs, _ =>
    .inl ⟨fun j hj => absurd hj (by omega), s, by rw [advanced_zero]; rfl, hs⟩
  | n + 1, g, s, memory, hcount, hs, hno => by
    have hne : g.regs .rcx ≠ 0 := by
      intro h
      rw [h] at hcount
      simp at hcount
    have hfirst : op.MeetsNone s g := by
      have := hno 0 (by omega) fun i hi => absurd hi (by omega)
      rwa [advanced_zero] at this
    rw [repeatElements, if_neg hne]
    rcases element_spec hs hfirst with
      ⟨hpermitted, s1, hrun, hshown, hpermits, hpages⟩ | ⟨hnot, fault, s1, hrun, hdepicts, hreports⟩
    · have hpermitted0 : op.Permitted s (op.advanced g 0) := by rwa [advanced_zero]
      have hcount1 : ((op.advanced g 1).regs .rcx).toNat = n := by
        show (g.regs .rcx - 1#64).toNat = n
        have := (g.regs .rcx).isLt
        rw [BitVec.toNat_sub_of_le (by rw [BitVec.le_def]; simp; omega), hcount]
        rfl
      have hno1 : op.Undisturbed (op.advanced g 1) s1 := by
        intro j hj hbefore
        rw [hcount1] at hj
        rw [advanced_advanced]
        refine (hno (1 + j) (by omega) fun i hi => ?_).kept hpermits hpages
        rcases i with _ | i
        · exact hpermitted0
        · have := (hbefore i (by omega)).samePermits hpermits.symm
          rwa [advanced_advanced, Nat.add_comm] at this
      have hall {m : Nat} (h : ∀ j < m, op.Permitted s1 (op.advanced (op.advanced g 1) j)) :
          ∀ j < 1 + m, op.Permitted s (op.advanced g j) := by
        intro j hj
        rcases j with _ | j
        · exact hpermitted0
        · have := (h j (by omega)).samePermits hpermits.symm
          rwa [advanced_advanced, Nat.add_comm] at this
      rw [hrun]
      dsimp only
      rw [← elementStep_advanced (k := 1)]
      rcases repeatElements_spec n hcount1 hshown hno1 with
        ⟨hrest, s', hloop, hshown'⟩ | ⟨k, hk, hrest, hstop, fault, s', hloop, hdepicts, hreports⟩
      · rw [memoryAfter_add, Nat.add_comm] at hshown'
        refine .inl ⟨fun j hj => hall hrest j (by omega), s', ?_, hshown'⟩
        rw [hloop, advanced_advanced, Nat.add_comm]
      · rw [memoryAfter_add] at hdepicts
        rw [advanced_advanced] at hstop
        refine .inr ⟨1 + k, by omega, hall hrest, fun h => hstop (h.samePermits hpermits), fault, s',
          ?_, hdepicts, hreports.later hpermits rfl⟩
        rw [hloop, advanced_advanced]
    · refine .inr ⟨0, by omega, fun j hj => absurd hj (by omega), ?_, fault, s1, ?_, hdepicts,
        hreports⟩
      · rwa [advanced_zero]
      · rw [hrun, advanced_zero]

/-- Along a run that is not disturbed, an element can be done if it is permitted. -/
theorem Undisturbed.accessible (hno : op.Undisturbed g s) (hn : n ≤ (g.regs .rcx).toNat)
    (h : ∀ j < n, op.Permitted s (op.advanced g j)) : ∀ j < n, op.Accessible s (op.advanced g j) :=
  fun j hj => ⟨h j hj, hno j (by omega) fun i hi => h i (by omega)⟩

/-- A run whose elements can all be done does them. -/
theorem completes_of_accessible (hs : Shown memory s)
    (h : ∀ j < (g.regs .rcx).toNat, op.Accessible s (op.advanced g j)) :
    op.Completes g s memory := by
  have hno : op.Undisturbed g s := fun j hj _ => (h j hj).2
  rcases repeatElements_spec _ rfl hs hno with
    ⟨-, s', hloop, hshown⟩ | ⟨k, hk, -, hstop, -⟩
  · have hrun := run_eq.trans hloop
    exact ⟨by rw [hrun], by rw [hrun], by rw [hrun]; exact hshown.depicts⟩
  · exact absurd (h k hk).1 hstop

theorem resumes (hk : k < (g.regs .rcx).toNat) : op.Resumes g memory k := by
  intro t whole ht hwhole hdt hdwhole hrest hall
  have hcount : ((op.advanced g k).regs .rcx).toNat = (g.regs .rcx).toNat - k := by
    show (g.regs .rcx - BitVec.ofNat 64 k).toNat = _
    have := (g.regs .rcx).isLt
    have hk' : (BitVec.ofNat 64 k).toNat = k := by
      rw [BitVec.toNat_ofNat, Nat.mod_eq_of_lt (by omega)]
    rw [BitVec.toNat_sub_of_le (by rw [BitVec.le_def, hk']; omega), hk']
  have hsum : k + ((op.advanced g k).regs .rcx).toNat = (g.regs .rcx).toNat := by omega
  have hfrom : op.Completes (op.advanced g k) t (op.memoryAfter memory g k) := by
    refine completes_of_accessible ⟨ht, hdt⟩ fun j hj => ?_
    rw [advanced_advanced]
    exact hrest (k + j) (by omega) (by omega)
  have hthrough : op.Completes g whole memory := completes_of_accessible ⟨hwhole, hdwhole⟩ hall
  refine ⟨hfrom.returns, hthrough.returns, ?_, op.memoryAfter memory g (g.regs .rcx).toNat, ?_,
    hthrough.memory⟩
  · rw [hfrom.registers, hthrough.registers, advanced_advanced, hsum]
  · have := hfrom.memory
    rwa [memoryAfter_add, hsum] at this

/-- Registers for `count` elements between these addresses. -/
def registersFor (source destination count : BitVec 64) : GuestState where
  regs
    | .rsi => source
    | .rdi => destination
    | .rcx => count
    | _ => 0
  rip := 0
  rflags := 2
  xmm _ := (0, 0)
  ymmUpper _ := (0, 0)
  gsBase := 0

end StringOperation

end Rosa
