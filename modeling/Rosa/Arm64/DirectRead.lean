import Rosa.Arm64.Assembler
import Rosa.Guest.Access

/-!
# The inline direct read

The fast path of an 8-bit `LoadGuest` in a block that pins a direct-read view : `x20`,
`x21` and `x22` hold the view's host pointer, its guest base and its size. The first load
of a group of adjacent loads checks the whole group with one comparison : it adds the
largest offset of the group to the offset of its address in the view and compares the sum
with the size. `directGuestRead`, which the slow path calls, also checks that the address
is not below the base. The inline check does not, and the addition may wrap, so an
address a little below the base is admitted (`adjacentRead_inside_iff`).
-/

namespace Rosa.Arm64

open Instruction

/-! ## The view -/

/-- The base and the size of a cached `DirectGuestMemoryCache`, which lie in the guest
address space. -/
structure DirectView where
  base : BitVec 64
  size : BitVec 64
  placed : base.toNat + size.toNat ≤ 2 ^ 64

/-- The byte `offset` bytes after `address` lies in the view. -/
def DirectView.Holds (view : DirectView) (address : BitVec 64) (offset : Nat) : Prop :=
  view.base.toNat ≤ address.toNat + offset ∧
    address.toNat + offset < view.base.toNat + view.size.toNat

/-- A view that `directMemoryView` hands out is placed. -/
theorem directMemoryView_placed {s : AddressSpace} (hi : s.Inv) {address : Nat}
    {required : Permission} {i : Nat} {m : Mapping} {s' : AddressSpace}
    (hv : AddressSpace.directMemoryView address required s = (.ok (some (i, m)), s')) :
    m.base + m.size ≤ 2 ^ 64 := by
  have hspec := AddressSpace.directMemoryView_spec hi address required
  simp only [AddressSpace.ReadSpec, Computation.Post, hv] at hspec
  have hf := (hspec.2 i m rfl).1
  have hplaced := hi.placed m hf.mem
  exact hplaced.below.le

/-! ## The emitted check -/

/-- The label of the slow path. -/
def checkedHelper : Label := 0

/-- The code after `directFast` for the first load of a group : `address` and `result` are
the registers of the operand and of the result. -/
def adjacentRead (address result : ValueRegister) (maximumOffset : BitVec 12) :
    List Instruction :=
  [sub 17 address.1 21, addImmediate 16 17 maximumOffset, compare 16 22,
    bConditional .unsignedHigherOrSame checkedHelper, add 3 20 17, ldr8 result.1 3 0,
    movImmediate 4 1]

/-- The code after `directFast` for a load that is alone. -/
def singleRead (address result : ValueRegister) : List Instruction :=
  [sub 17 address.1 21, compare 17 22, bConditional .unsignedHigherOrSame checkedHelper,
    add 16 20 17, ldr8 result.1 16 0]

/-- The registers hold the view. -/
structure Pinned (view : DirectView) (h : Host) : Prop where
  base : h.x 21 = view.base
  size : h.x 22 = view.size

/-- The sequence runs to its end and does not leave to the slow path. -/
def Admits (code : List Instruction) (h : Host) : Prop := (run code h).2 = none

instance (code : List Instruction) (h : Host) : Decidable (Admits code h) :=
  inferInstanceAs (Decidable (_ = _))

variable {view : DirectView} {h : Host} {address result : ValueRegister} {maximumOffset : BitVec 12}

theorem admits_adjacentRead (hp : Pinned view h) :
    Admits (adjacentRead address result maximumOffset) h ↔
      (h.x address.1 - view.base + maximumOffset.setWidth 64).ult view.size = true := by
  have hbase := hp.base
  have hsize := hp.size
  cases hlt : (h.x address.1 - view.base + maximumOffset.setWidth 64).ult view.size <;>
    simp [Admits, adjacentRead, run, advance, execute, Nzcv.ofCompare, BranchCondition.holds,
      hbase, hsize, hlt]

theorem admits_singleRead (hp : Pinned view h) :
    Admits (singleRead address result) h ↔ (h.x address.1 - view.base).ult view.size = true := by
  have hbase := hp.base
  have hsize := hp.size
  cases hlt : (h.x address.1 - view.base).ult view.size <;>
    simp [Admits, singleRead, run, advance, execute, Nzcv.ofCompare, BranchCondition.holds,
      hbase, hsize, hlt]

/-! ## What the check is worth -/

/-- The offset of an address in the view, with the largest offset of the group added,
below `2 ^ 64` or wrapped. -/
theorem toNat_groupEnd (view : DirectView) (a : BitVec 64) (maximumOffset : BitVec 12) :
    (a - view.base + maximumOffset.setWidth 64).toNat =
      if (view.base - a).toNat ≤ maximumOffset.toNat ∧ 0 < (view.base - a).toNat then
        maximumOffset.toNat - (view.base - a).toNat
      else (a - view.base).toNat + maximumOffset.toNat := by
  have hmax := maximumOffset.isLt
  have ha := a.isLt
  have hb := view.base.isLt
  have hw : (maximumOffset.setWidth 64).toNat = maximumOffset.toNat := by
    simp only [BitVec.toNat_setWidth]
    omega
  simp only [BitVec.toNat_add, BitVec.toNat_sub, hw]
  split <;> omega

/-- An address at most `maximumOffset` below the base whose group reaches into the view. -/
def JustBelow (view : DirectView) (a : BitVec 64) (maximumOffset : BitVec 12) : Prop :=
  0 < (view.base - a).toNat ∧ (view.base - a).toNat ≤ maximumOffset.toNat ∧
    maximumOffset.toNat - (view.base - a).toNat < view.size.toNat

/-- One comparison tells whether an address is in the view : below the base the difference
wraps and is too large. -/
theorem DirectView.holds_of_ult {a : BitVec 64} (hlt : (a - view.base).ult view.size = true) :
    view.Holds a 0 := by
  have hplaced := view.placed
  have ha := a.isLt
  have hbase := view.base.isLt
  simp only [BitVec.ult, decide_eq_true_eq, BitVec.toNat_sub] at hlt
  constructor <;> omega

/-- A load that is alone is admitted only inside the view. -/
theorem holds_of_admits_singleRead (hp : Pinned view h)
    (ha : Admits (singleRead address result) h) : view.Holds (h.x address.1) 0 :=
  view.holds_of_ult ((admits_singleRead hp).mp ha)

/-- The group check keeps every byte of the group inside the view exactly if the address
is not just below the base. -/
theorem adjacentRead_inside_iff (view : DirectView) (h : Host) (hp : Pinned view h)
    (address result : ValueRegister) (maximumOffset : BitVec 12) :
    (Admits (adjacentRead address result maximumOffset) h →
        ∀ offset ≤ maximumOffset.toNat, view.Holds (h.x address.1) offset) ↔
      ¬JustBelow view (h.x address.1) maximumOffset := by
  rw [admits_adjacentRead hp]
  simp only [BitVec.ult, decide_eq_true_eq, toNat_groupEnd, JustBelow, DirectView.Holds]
  have hplaced := view.placed
  have haddress := (h.x address.1).isLt
  have hbase := view.base.isLt
  have hmax := maximumOffset.isLt
  have hsub : (view.base - h.x address.1).toNat =
      (2 ^ 64 - (h.x address.1).toNat + view.base.toNat) % 2 ^ 64 := BitVec.toNat_sub ..
  have hsub' : (h.x address.1 - view.base).toNat =
      (2 ^ 64 - view.base.toNat + (h.x address.1).toNat) % 2 ^ 64 := BitVec.toNat_sub ..
  constructor
  · rintro hinside ⟨hpos, hle, hlt⟩
    have hadmits : (if (view.base - h.x address.1).toNat ≤ maximumOffset.toNat ∧
        0 < (view.base - h.x address.1).toNat then
          maximumOffset.toNat - (view.base - h.x address.1).toNat
        else (h.x address.1 - view.base).toNat + maximumOffset.toNat) < view.size.toNat := by
      rw [if_pos ⟨hle, hpos⟩]
      exact hlt
    -- The first byte is not below the base, so the last one is past the address space.
    have hfirst := hinside hadmits 0 (Nat.zero_le _)
    have hlast := hinside hadmits maximumOffset.toNat le_rfl
    clear hadmits
    omega
  · intro hnot hadmits offset hoffset
    split at hadmits
    · next hbelow => exact absurd ⟨hbelow.2, hbelow.1, hadmits⟩ hnot
    · constructor <;> omega

/-- The page at `0x1000`. -/
def firstPage : DirectView := ⟨0x1000, 0x1000, by decide⟩

/-- A host that has `firstPage` pinned and the address in `x8`. -/
def loadingFrom (a : BitVec 64) : Host where
  x r := if r = 21 then 0x1000 else if r = 22 then 0x1000 else if r = 8 then a else 0
  nzcv := {}
  rflags := 0
  bytes _ := 0

theorem adjacentRead_inside_firstPage :
    firstPage.Holds 0x1000 0 ∧ firstPage.Holds 0x1000 1 := by
  have hinside := (adjacentRead_inside_iff firstPage (loadingFrom 0x1000) ⟨rfl, rfl⟩
    ⟨8, by decide⟩ ⟨9, by decide⟩ 1).mpr (by simp [JustBelow, firstPage, loadingFrom])
  have hheld := hinside (by decide)
  exact ⟨hheld 0 (by decide), hheld 1 (by decide)⟩

/-- The byte just below the page, read as the first of two adjacent bytes. -/
theorem not_inside_belowFirstPage :
    ¬(Admits (adjacentRead ⟨8, by decide⟩ ⟨9, by decide⟩ 1) (loadingFrom 0xFFF) →
      ∀ offset ≤ (1 : BitVec 12).toNat, firstPage.Holds ((loadingFrom 0xFFF).x 8) offset) := by
  intro hinside
  have hadmits : Admits (adjacentRead ⟨8, by decide⟩ ⟨9, by decide⟩ 1) (loadingFrom 0xFFF) := by
    decide
  have hfirst := (hinside hadmits 0 (Nat.zero_le _)).1
  revert hfirst
  decide

end Rosa.Arm64
