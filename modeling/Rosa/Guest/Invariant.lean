import Rosa.Guest.AddressSpace

/-!
# The representation of an address space

What every reachable address space looks like : its mappings are in order and disjoint,
aligned, below the end of the address space and within their maximum permissions, and
the host memory they refer to is large enough for them. `Inv` states it; it holds after
every call, whether the call returns or throws.

Whether a mapping that may be accessed has any backing at all is a separate question.
`Backed` says that it has, and a private-copy `protect` of a reservation is the one call
that breaks it.

Accesses change contents and the lookup cache and nothing else. `Touch` lists the three
changes they are made of, and `Touch.inv` shows once that each keeps the invariant.
-/

namespace Rosa

/-! ## The invariant -/

/-- A mapping in its place. -/
structure Mapping.Placed (m : Mapping) : Prop where
  nonempty : 0 < m.size
  baseAligned : m.base % guestPageSize = 0
  sizeAligned : m.size % guestPageSize = 0
  below : m.base + m.size < 2 ^ 64
  within : m.maximumPermissions.has m.permissions = true

theorem Mapping.Placed.limit_eq {m : Mapping} (h : m.Placed) : m.limit = m.base + m.size :=
  Nat.mod_eq_of_lt h.below

/-- The host memory of a mapping is as large as the mapping, where there is any. -/
structure Mapping.Shaped (s : AddressSpace) (m : Mapping) : Prop where
  bytes : m.bytes.size = 0 ∨ m.bytes.size = m.size
  readable : m.readableBytes.size = 0 ∨
    (m.readableBytes.size = m.size ∧ m.bytes.size = m.size)
  file : ∀ f, m.fileBytes = some f →
    f < s.fileCount ∧ m.fileDataOffset + m.size ≤ (s.files f).size
  lazyTransform : ∀ t, m.lazyFileTransform = some t → t < s.transformCount ∧
    0 < (s.transforms t).pageSize ∧ (s.transforms t).dataOffset ≤ m.fileDataOffset ∧
    m.fileDataOffset + m.size ≤ (s.transforms t).dataOffset + (s.transforms t).size ∧
    ∃ f, m.fileBytes = some f ∧
      (s.transforms t).dataOffset + (s.transforms t).size ≤ (s.files f).size

/-- The mapping has memory behind it. -/
def Mapping.HasBacking (m : Mapping) : Prop :=
  m.fileBytes.isSome = true ∨ m.bytes.size = m.size

/-- Slices of one file mapping are at the same distance from the file. -/
def Mapping.SameShift (a b : Mapping) : Prop :=
  ∀ f, a.fileBytes = some f → b.fileBytes = some f →
    a.fileDataOffset + b.base = b.fileDataOffset + a.base

/-- The mapping has a byte of the range. -/
def Mapping.Meets (m : Mapping) (start size : Nat) : Prop :=
  ∃ k < size, m.base ≤ start + k ∧ start + k < m.base + m.size

/-- The mapping has file bytes or may be accessed. -/
def Mapping.Accessible (m : Mapping) : Prop :=
  m.fileBytes.isSome = true ∨ m.permissions ≠ .none

namespace AddressSpace

/-- The mappings are in order and disjoint. -/
def Sorted (mappings : List Mapping) : Prop :=
  mappings.Pairwise fun a b => a.base + a.size ≤ b.base

/-- An entry of the lookup cache names a mapping that is there. -/
def LookupValid (s : AddressSpace) : Prop :=
  ∀ slot entry, s.mappingLookup slot = some entry →
    ∃ m ∈ s.mappings, m.base = entry.base ∧ m.limit = entry.limit

/-- The representation invariant. -/
structure Inv (s : AddressSpace) : Prop where
  placed : ∀ m ∈ s.mappings, m.Placed
  sorted : Sorted s.mappings
  shaped : ∀ m ∈ s.mappings, m.Shaped s
  shift : ∀ a ∈ s.mappings, ∀ b ∈ s.mappings, a.SameShift b
  lookup : s.LookupValid

/-- Every mapping that may ever be accessed has backing. -/
def Backed (s : AddressSpace) : Prop :=
  ∀ m ∈ s.mappings, m.maximumPermissions ≠ .none → m.HasBacking

theorem Inv.initial : Inv {} where
  placed := by simp
  sorted := List.Pairwise.nil
  shaped := by simp
  shift := by simp
  lookup := by simp [LookupValid]

/-! ## Lookup in a sorted list -/

section

variable {ms : List Mapping} {m : Mapping} {i address size : Nat}

/-- In a sorted list the mapping that holds an address is the last one that starts at or
below it. -/
theorem upperBound_of_holds (hsorted : Sorted ms) (hm : ms[i]? = some m)
    (hbase : m.base ≤ address) (hlimit : address < m.base + m.size) :
    upperBound ms address = i + 1 := by
  induction ms generalizing i with
  | nil => simp at hm
  | cons a ms ih =>
    have hrest := List.pairwise_cons.mp hsorted
    cases i with
    | zero =>
      obtain rfl : a = m := by simpa using hm
      have hnone : ms.takeWhile (fun m => decide (m.base ≤ address)) = [] := by
        cases ms with
        | nil => rfl
        | cons b ms =>
          have := hrest.1 b (by simp)
          simp only [List.takeWhile_cons]
          rw [if_neg]
          simpa using by omega
      simp [upperBound, hbase, hnone]
    | succ i =>
      have hm' : ms[i]? = some m := by simpa using hm
      have hle := hrest.1 m (List.mem_of_getElem? hm')
      have := ih hrest.2 hm'
      have ha : a.base ≤ address := by omega
      simp only [upperBound, List.takeWhile_cons, ha, decide_true, if_true, List.length_cons] at this ⊢
      omega

theorem rangeContains_iff {base mappingSize : Nat} (hsize : 0 < size) :
    rangeContains base mappingSize address size = true ↔
      base ≤ address ∧ address + size ≤ base + mappingSize := by
  unfold rangeContains
  split
  · next h =>
    simp only [Bool.or_eq_true, decide_eq_true_eq] at h
    constructor
    · intro h; cases h
    · omega
  · next h =>
    simp only [Bool.or_eq_true, decide_eq_true_eq, not_or, not_lt] at h
    simp only [decide_eq_true_eq]
    omega

theorem mappingHolding_of_holds (hsorted : Sorted ms) (hm : ms[i]? = some m)
    (hbase : m.base ≤ address) (hbelow : address < m.base + m.size)
    (hlimit : address + size ≤ m.base + m.size) :
    mappingHolding ms address size = some (i, m) := by
  have hc : rangeContains m.base m.size address size = true := by
    simp only [rangeContains, Bool.or_eq_true, decide_eq_true_eq]
    rw [if_neg (by omega)]
    simpa using by omega
  simp [mappingHolding, upperBound_of_holds hsorted hm hbase hbelow, hm, hc]

theorem mappingHolding_index (h : mappingHolding ms address size = some (i, m)) :
    ms[i]? = some m := by
  unfold mappingHolding at h
  split at h
  · cases h
  · next j hj =>
    simp only [Option.bind_eq_some_iff, Option.ite_none_right_eq_some] at h
    obtain ⟨m', hm', -, h⟩ := h
    obtain ⟨rfl, rfl⟩ : j = i ∧ m' = m := by simpa using h
    exact hm'

/-- The uncached lookup finds exactly the mapping that holds the range. -/
theorem mappingHolding_iff (hsorted : Sorted ms) (hsize : 0 < size) :
    mappingHolding ms address size = some (i, m) ↔
      ms[i]? = some m ∧ m.base ≤ address ∧ address + size ≤ m.base + m.size := by
  constructor
  · intro h
    unfold mappingHolding at h
    split at h
    · cases h
    · next j hj =>
      simp only [Option.bind_eq_some_iff] at h
      obtain ⟨m', hm', h⟩ := h
      split at h
      · next hc =>
        obtain ⟨rfl, rfl⟩ : j = i ∧ m' = m := by simpa using h
        exact ⟨hm', (rangeContains_iff hsize).mp hc⟩
      · cases h
  · rintro ⟨hm, hbase, hlimit⟩
    exact mappingHolding_of_holds hsorted hm hbase (by omega) hlimit

/-- Mappings of a sorted list that meet are the same. -/
theorem Sorted.unique {a b : Mapping} {j : Nat} (hsorted : Sorted ms) (ha : ms[i]? = some a)
    (hb : ms[j]? = some b) (hab : a.base < b.base + b.size) (hba : b.base < a.base + a.size) :
    i = j := by
  obtain ⟨hi, rfl⟩ := List.getElem?_eq_some_iff.mp ha
  obtain ⟨hj, rfl⟩ := List.getElem?_eq_some_iff.mp hb
  have := List.pairwise_iff_getElem.mp hsorted
  rcases Nat.lt_trichotomy i j with h | h | h
  · have := this i j hi hj h
    omega
  · exact h
  · have := this j i hj hi h
    omega

end

/-- The part of the invariant that a lookup rests on. -/
structure Findable (s : AddressSpace) : Prop where
  placed : ∀ m ∈ s.mappings, m.Placed
  sorted : Sorted s.mappings
  lookup : s.LookupValid

theorem Inv.findable {s : AddressSpace} (h : Inv s) : Findable s := ⟨h.placed, h.sorted, h.lookup⟩

/-- The lookup cache never changes an answer. -/
theorem Findable.cachedMapping_eq {s : AddressSpace} (h : Findable s) {address size i : Nat}
    {m : Mapping} (hc : s.cachedMapping address size = some (i, m)) :
    mappingHolding s.mappings address size = some (i, m) := by
  simp only [cachedMapping, Option.bind_eq_some_iff] at hc
  obtain ⟨entry, hentry, m', hm', hc⟩ := hc
  split at hc
  · next hr =>
    obtain ⟨rfl, rfl⟩ : entry.index = i ∧ m' = m := by simpa using hc
    simp only [Bool.and_eq_true, decide_eq_true_eq, beq_iff_eq] at hr
    obtain ⟨m0, hm0, hbase, hlimit⟩ := h.lookup _ _ hentry
    obtain ⟨j, hj⟩ := List.getElem?_of_mem hm0
    have h0 := h.placed m0 hm0
    have h' := h.placed m' (List.mem_of_getElem? hm')
    have h0n := h0.nonempty
    have h'n := h'.nonempty
    rw [h0.limit_eq] at hlimit
    obtain rfl : j = entry.index :=
      h.sorted.unique hj hm' (by omega) (by omega)
    obtain rfl : m0 = m' := by simpa [hj] using hm'
    exact mappingHolding_of_holds h.sorted hm' (by omega) (by omega) (by omega)
  · cases hc

end AddressSpace

/-! ## What an access can change -/

/-- Two mappings differ in their contents only. -/
structure Mapping.SameShape (a b : Mapping) : Prop where
  base : b.base = a.base
  size : b.size = a.size
  permissions : b.permissions = a.permissions
  maximumPermissions : b.maximumPermissions = a.maximumPermissions
  bytes : b.bytes.size = a.bytes.size
  fileBytes : b.fileBytes = a.fileBytes
  fileDataOffset : b.fileDataOffset = a.fileDataOffset
  lazyFileTransform : b.lazyFileTransform = a.lazyFileTransform
  readableBytes : b.readableBytes.size = a.readableBytes.size

theorem Mapping.SameShape.refl (m : Mapping) : m.SameShape m :=
  ⟨rfl, rfl, rfl, rfl, rfl, rfl, rfl, rfl, rfl⟩

/-- Two lazy transforms differ in the pages they have transformed only. -/
structure LazyFilePageTransform.SameShape (a b : LazyFilePageTransform) : Prop where
  dataOffset : b.dataOffset = a.dataOffset
  size : b.size = a.size
  pageSize : b.pageSize = a.pageSize
  transform : b.transform = a.transform

/-- The page of a lazy transform that a byte of a mapping is on. -/
def LazyFilePageTransform.pageOf (t : LazyFilePageTransform) (m : Mapping) (offset : Nat) : Nat :=
  (m.fileDataOffset + offset - t.dataOffset) / t.pageSize

theorem Mapping.SameShape.trans {a b c : Mapping} (h : a.SameShape b) (h' : b.SameShape c) :
    a.SameShape c := by
  obtain ⟨h1, h2, h3, h4, h5, h6, h7, h8, h9⟩ := h
  obtain ⟨g1, g2, g3, g4, g5, g6, g7, g8, g9⟩ := h'
  exact ⟨g1.trans h1, g2.trans h2, g3.trans h3, g4.trans h4, g5.trans h5, g6.trans h6,
    g7.trans h7, g8.trans h8, g9.trans h9⟩

theorem Mapping.SameShape.placed {a b : Mapping} (h : a.SameShape b) (ha : a.Placed) :
    b.Placed := by
  obtain ⟨h1, h2, h3, h4, -⟩ := h
  exact ⟨h2 ▸ ha.nonempty, h1 ▸ ha.baseAligned, h2 ▸ ha.sizeAligned, by rw [h1, h2]; exact ha.below,
    by rw [h3, h4]; exact ha.within⟩

namespace AddressSpace

/-- Two spaces differ in contents and the lookup cache only. -/
structure SameShape (s s' : AddressSpace) : Prop where
  mappings : List.Forall₂ Mapping.SameShape s.mappings s'.mappings
  fileCount : s'.fileCount = s.fileCount
  transformCount : s'.transformCount = s.transformCount
  files : ∀ f, (s'.files f).size = (s.files f).size
  transforms : ∀ t, (s.transforms t).SameShape (s'.transforms t)

/-- The lazy page of a byte of a mapping was transformed. -/
def Ready (s : AddressSpace) (m : Mapping) (offset : Nat) : Prop :=
  ∀ t, m.lazyFileTransform = some t →
    (s.transforms t).transformedPages ((s.transforms t).pageOf m offset) = true

/-- The changes accesses are made of : an entry of the lookup cache, one page of a lazy
transform, and a store into a mapping that is `allowed`. -/
inductive Touch (allowed : Mapping → Prop) (s : AddressSpace) : AddressSpace → Prop
  | lookup {i slot : Nat} {m : Mapping} (hm : s.mappings[i]? = some m) :
      Touch allowed s
        { s with
          mappingLookup := Function.update s.mappingLookup slot (some ⟨m.base, m.limit, i⟩) }
  | transform {m : Mapping} {file : FileId} {t : TransformId} {offset : Nat}
      (hm : m ∈ s.mappings) (hfile : m.fileBytes = some file)
      (ht : m.lazyFileTransform = some t) (hoffset : offset < m.size)
      (hnew : (s.transforms t).transformedPages ((s.transforms t).pageOf m offset) = false) :
      Touch allowed s (applyTransform file t ((s.transforms t).pageOf m offset) s)
  | store {i offset : Nat} {m : Mapping} {data : List Byte} (hm : s.mappings[i]? = some m)
      (hallowed : allowed m) (hfits : offset + data.length ≤ m.size)
      (hready : ∀ k < data.length, s.Ready m (offset + k)) :
      Touch allowed s (storeBytes i m offset data s)

/-- A sequence of such changes. -/
def Touches (allowed : Mapping → Prop) : AddressSpace → AddressSpace → Prop :=
  Relation.ReflTransGen (Touch allowed)

/-- Accesses that store nothing. -/
def nowhere : Mapping → Prop := fun _ => False

section

variable {s s' s'' : AddressSpace} {allowed allowed' : Mapping → Prop}

theorem SameShape.refl (s : AddressSpace) : SameShape s s :=
  ⟨List.forall₂_same.mpr fun m _ => .refl m, rfl, rfl, fun _ => rfl, fun _ => ⟨rfl, rfl, rfl, rfl⟩⟩

theorem forall₂_set {ms : List Mapping} {i : Nat} {m m' : Mapping} (hm : ms[i]? = some m)
    (h : m.SameShape m') : List.Forall₂ Mapping.SameShape ms (ms.set i m') := by
  induction ms generalizing i with
  | nil => simp at hm
  | cons a ms ih =>
    cases i with
    | zero =>
      obtain rfl : a = m := by simpa using hm
      exact .cons h (List.forall₂_same.mpr fun m _ => .refl m)
    | succ i => exact .cons (.refl a) (ih (by simpa using hm))

theorem applyTransform_sameShape (file : FileId) (t : TransformId) (page : Nat) :
    SameShape s (applyTransform file t page s) where
  mappings := List.forall₂_same.mpr fun m _ => .refl m
  fileCount := rfl
  transformCount := rfl
  files f := by
    simp only [applyTransform, Function.update_apply]
    split
    · next h => rw [h]
    · rfl
  transforms u := by
    simp only [applyTransform]
    split
    · exact ⟨rfl, rfl, rfl, rfl⟩
    · rw [Function.update_apply]
      split
      · next h => rw [h]; exact ⟨rfl, rfl, rfl, rfl⟩
      · exact ⟨rfl, rfl, rfl, rfl⟩

theorem storeBytes_sameShape {i offset : Nat} {m : Mapping} {data : List Byte}
    (hm : s.mappings[i]? = some m) : SameShape s (storeBytes i m offset data s) := by
  unfold storeBytes
  split
  · refine ⟨List.forall₂_same.mpr fun m _ => .refl m, rfl, rfl, fun f => ?_,
      fun _ => ⟨rfl, rfl, rfl, rfl⟩⟩
    simp only [Function.update_apply]
    split
    · next h => rw [h]
    · rfl
  · exact ⟨forall₂_set hm ⟨rfl, rfl, rfl, rfl, rfl, rfl, rfl, rfl, rfl⟩, rfl, rfl, fun _ => rfl,
      fun _ => ⟨rfl, rfl, rfl, rfl⟩⟩

theorem Touch.sameShape (h : Touch allowed s s') : SameShape s s' := by
  cases h with
  | lookup hm =>
    exact ⟨List.forall₂_same.mpr fun m _ => .refl m, rfl, rfl, fun _ => rfl,
      fun _ => ⟨rfl, rfl, rfl, rfl⟩⟩
  | transform => exact applyTransform_sameShape _ _ _
  | store hm => exact storeBytes_sameShape hm

/-- The mappings of two spaces of the same shape, by index. -/
theorem SameShape.getElem? (h : SameShape s s') {i : Nat} {m' : Mapping}
    (hm' : s'.mappings[i]? = some m') : ∃ m, s.mappings[i]? = some m ∧ m.SameShape m' := by
  obtain ⟨hi', rfl⟩ := List.getElem?_eq_some_iff.mp hm'
  have hi : i < s.mappings.length := h.mappings.length_eq ▸ hi'
  exact ⟨s.mappings[i], List.getElem?_eq_getElem hi, h.mappings.get hi hi'⟩

theorem SameShape.getElem?' (h : SameShape s s') {i : Nat} {m : Mapping}
    (hm : s.mappings[i]? = some m) : ∃ m', s'.mappings[i]? = some m' ∧ m.SameShape m' := by
  obtain ⟨hi, rfl⟩ := List.getElem?_eq_some_iff.mp hm
  have hi' : i < s'.mappings.length := h.mappings.length_eq ▸ hi
  exact ⟨s'.mappings[i], List.getElem?_eq_getElem hi', h.mappings.get hi hi'⟩

theorem SameShape.mem (h : SameShape s s') {m' : Mapping} (hm' : m' ∈ s'.mappings) :
    ∃ m ∈ s.mappings, m.SameShape m' := by
  obtain ⟨i, hi⟩ := List.getElem?_of_mem hm'
  obtain ⟨m, hm, hs⟩ := h.getElem? hi
  exact ⟨m, List.mem_of_getElem? hm, hs⟩

theorem SameShape.mem' (h : SameShape s s') {m : Mapping} (hm : m ∈ s.mappings) :
    ∃ m' ∈ s'.mappings, m.SameShape m' := by
  obtain ⟨i, hi⟩ := List.getElem?_of_mem hm
  obtain ⟨m', hm', hs⟩ := h.getElem?' hi
  exact ⟨m', List.mem_of_getElem? hm', hs⟩

theorem SameShape.shaped (h : SameShape s s') {a b : Mapping} (hab : a.SameShape b)
    (ha : a.Shaped s) : b.Shaped s' := by
  obtain ⟨h1, h2, -, -, h5, h6, h7, h8, h9⟩ := hab
  refine ⟨by rw [h5, h2]; exact ha.bytes, by rw [h9, h5, h2]; exact ha.readable, ?_, ?_⟩
  · intro f hf
    rw [h.fileCount, h.files, h7, h2]
    exact ha.file f (h6 ▸ hf)
  · intro t ht
    obtain ⟨g1, g2, g3, g4, f, hf, g5⟩ := ha.lazyTransform t (h8 ▸ ht)
    obtain ⟨e1, e2, e3, -⟩ := h.transforms t
    rw [h.transformCount, e1, e2, e3, h7, h2]
    exact ⟨g1, g2, g3, g4, f, h6 ▸ hf, by rw [h.files]; exact g5⟩

theorem Inv.of_sameShape (h : Inv s) (hs : SameShape s s') (hl : s'.LookupValid) : Inv s' where
  placed m' hm' := by
    obtain ⟨m, hm, he⟩ := hs.mem hm'
    exact Mapping.SameShape.placed he (h.placed m hm)
  sorted := by
    refine List.pairwise_iff_getElem.mpr fun i j hi hj hij => ?_
    obtain ⟨a, ha, hae⟩ := hs.getElem? (List.getElem?_eq_getElem hi)
    obtain ⟨b, hb, hbe⟩ := hs.getElem? (List.getElem?_eq_getElem hj)
    obtain ⟨hi', rfl⟩ := List.getElem?_eq_some_iff.mp ha
    obtain ⟨hj', rfl⟩ := List.getElem?_eq_some_iff.mp hb
    rw [hae.base, hae.size, hbe.base]
    exact List.pairwise_iff_getElem.mp h.sorted i j hi' hj' hij
  shaped m' hm' := by
    obtain ⟨m, hm, he⟩ := hs.mem hm'
    exact hs.shaped he (h.shaped m hm)
  shift a' ha' b' hb' f hfa hfb := by
    obtain ⟨a, ha, hae⟩ := hs.mem ha'
    obtain ⟨b, hb, hbe⟩ := hs.mem hb'
    rw [hae.fileDataOffset, hbe.base, hbe.fileDataOffset, hae.base]
    exact h.shift a ha b hb f (hae.fileBytes ▸ hfa) (hbe.fileBytes ▸ hfb)
  lookup := hl

theorem LookupValid.of_sameShape (h : s.LookupValid) (hs : SameShape s s')
    (hl : s'.mappingLookup = s.mappingLookup) : s'.LookupValid := by
  intro slot entry he
  obtain ⟨m, hm, hb, hlim⟩ := h slot entry (hl ▸ he)
  obtain ⟨m', hm', hmm⟩ := hs.mem' hm
  refine ⟨m', hm', hmm.base.trans hb, ?_⟩
  rw [← hlim, Mapping.limit, Mapping.limit, hmm.base, hmm.size]

theorem storeBytes_mappingLookup {i offset : Nat} {m : Mapping} {data : List Byte} :
    (storeBytes i m offset data s).mappingLookup = s.mappingLookup := by
  unfold storeBytes
  split <;> rfl

theorem storeBytes_executableVersion {i offset : Nat} {m : Mapping} {data : List Byte} :
    (storeBytes i m offset data s).executableVersion = s.executableVersion := by
  unfold storeBytes
  split <;> rfl

/-- One change keeps the invariant. -/
theorem Touch.inv (h : Touch allowed s s') (hi : Inv s) : Inv s' := by
  refine hi.of_sameShape h.sameShape ?_
  cases h with
  | lookup hm =>
    intro slot entry he
    simp only [Function.update_apply] at he
    split at he
    · cases he
      exact ⟨_, List.mem_of_getElem? hm, rfl, rfl⟩
    · exact hi.lookup slot entry he
  | transform => exact hi.lookup.of_sameShape (applyTransform_sameShape _ _ _) rfl
  | store hm =>
    exact hi.lookup.of_sameShape (storeBytes_sameShape hm) storeBytes_mappingLookup

theorem Touch.executableVersion (h : Touch allowed s s') :
    s'.executableVersion = s.executableVersion := by
  cases h with
  | lookup => rfl
  | transform => rfl
  | store => exact storeBytes_executableVersion

theorem Touch.mappings_eq (h : Touch nowhere s s') : s'.mappings = s.mappings := by
  cases h with
  | lookup => rfl
  | transform => rfl
  | store _ hallowed => exact hallowed.elim

theorem SameShape.trans (h : SameShape s s') (h' : SameShape s' s'') : SameShape s s'' where
  mappings := by
    refine List.forall₂_iff_get.mpr ⟨h.mappings.length_eq.trans h'.mappings.length_eq, ?_⟩
    intro i hi hi''
    exact Mapping.SameShape.trans
      (h.mappings.get hi (h.mappings.length_eq ▸ hi))
      (h'.mappings.get (h.mappings.length_eq ▸ hi) hi'')
  fileCount := h'.fileCount.trans h.fileCount
  transformCount := h'.transformCount.trans h.transformCount
  files f := (h'.files f).trans (h.files f)
  transforms t := by
    obtain ⟨h1, h2, h3, h4⟩ := h.transforms t
    obtain ⟨g1, g2, g3, g4⟩ := h'.transforms t
    exact ⟨g1.trans h1, g2.trans h2, g3.trans h3, g4.trans h4⟩

/-! ### Sequences of changes -/

theorem Touches.refl : Touches allowed s s := Relation.ReflTransGen.refl

theorem Touches.trans (h : Touches allowed s s') (h' : Touches allowed s' s'') :
    Touches allowed s s'' := Relation.ReflTransGen.trans h h'

theorem Touch.mono (h : Touch allowed s s') (hle : ∀ m, allowed m → allowed' m) :
    Touch allowed' s s' := by
  cases h with
  | lookup hm => exact .lookup hm
  | transform hm hf ht ho hn => exact .transform hm hf ht ho hn
  | store hm ha hfits hr => exact .store hm (hle _ ha) hfits hr

theorem Touches.mono (h : Touches allowed s s') (hle : ∀ m, allowed m → allowed' m) :
    Touches allowed' s s' := by
  induction h with
  | refl => exact .refl
  | tail _ ht ih => exact ih.trans (.single (ht.mono hle))

theorem Touches.inv (h : Touches allowed s s') (hi : Inv s) : Inv s' := by
  induction h with
  | refl => exact hi
  | tail _ ht ih => exact ht.inv ih

theorem Touches.sameShape (h : Touches allowed s s') : SameShape s s' := by
  induction h with
  | refl => exact .refl s
  | tail _ ht ih => exact ih.trans ht.sameShape

theorem Touches.executableVersion (h : Touches allowed s s') :
    s'.executableVersion = s.executableVersion := by
  induction h with
  | refl => rfl
  | tail _ ht ih => exact ht.executableVersion.trans ih

theorem Touches.mappings_eq (h : Touches nowhere s s') : s'.mappings = s.mappings := by
  induction h with
  | refl => rfl
  | tail _ ht ih => exact ht.mappings_eq.trans ih

/-- A page that was transformed stays so. -/
theorem Touches.transformedPages (h : Touches allowed s s') {t : TransformId} {page : Nat}
    (hp : (s.transforms t).transformedPages page = true) :
    (s'.transforms t).transformedPages page = true := by
  induction h with
  | refl => exact hp
  | tail _ ht ih =>
    cases ht with
    | lookup => exact ih
    | transform =>
      simp only [applyTransform]
      split
      · exact ih
      · simp only [Function.update_apply]
        split
        · next h => 
          subst h
          simp only [Function.update_apply]
          split
          · rfl
          · exact ih
        · exact ih
    | store =>
      unfold storeBytes
      split <;> exact ih

theorem Touches.ready (h : Touches allowed s s') {m m' : Mapping} (hm : m.SameShape m')
    {offset : Nat} (hr : s.Ready m offset) : s'.Ready m' offset := by
  intro t ht
  have := h.transformedPages (hr t (hm.lazyFileTransform ▸ ht))
  obtain ⟨h1, -, h3, -⟩ := h.sameShape.transforms t
  rwa [LazyFilePageTransform.pageOf, h1, h3, hm.fileDataOffset]

theorem Touches.backed (h : Touches allowed s s') (hb : Backed s) : Backed s' := by
  intro m' hm' hp
  obtain ⟨m, hm, he⟩ := h.sameShape.mem hm'
  rw [Mapping.HasBacking, he.fileBytes, he.bytes, he.size]
  exact hb m hm (he.maximumPermissions ▸ hp)

end

end AddressSpace

end Rosa
