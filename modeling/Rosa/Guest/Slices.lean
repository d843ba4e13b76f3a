import Rosa.Guest.Mappings

/-!
# Slices

`protect` and `deallocate` cut the mappings of a page-rounded range into slices. A slice
keeps its distance from the file and its part of the bytes, so cutting keeps the
invariant whatever permissions the pieces get.
-/

namespace Rosa

namespace AddressSpace

open Rosa.Computation

variable {s s' : AddressSpace}

/-- A piece of a mapping. -/
structure IsSlice (m p : Mapping) : Prop where
  base : m.base ≤ p.base
  limit : p.base + p.size ≤ m.base + m.size
  nonempty : 0 < p.size
  baseAligned : p.base % guestPageSize = 0
  sizeAligned : p.size % guestPageSize = 0
  within : p.maximumPermissions.has p.permissions = true
  fileBytes : p.fileBytes = m.fileBytes
  shift : p.fileDataOffset + m.base = m.fileDataOffset + p.base
  lazyFileTransform : p.lazyFileTransform = m.lazyFileTransform
  bytes : (m.bytes.size = 0 ∧ p.bytes.size = 0) ∨ (m.bytes.size ≠ 0 ∧ p.bytes.size = p.size)
  readable : (m.readableBytes.size = 0 ∧ p.readableBytes.size = 0) ∨
    (m.readableBytes.size ≠ 0 ∧ p.readableBytes.size = p.size)
  contents : ∀ k < p.size, m.bytes.size ≠ 0 →
    p.bytes.get k = m.bytes.get (p.base - m.base + k)

theorem IsSlice.refl {m : Mapping} (hp : m.Placed) (hs : m.Shaped s) : IsSlice m m where
  base := le_refl _
  limit := le_refl _
  nonempty := hp.nonempty
  baseAligned := hp.baseAligned
  sizeAligned := hp.sizeAligned
  within := hp.within
  fileBytes := rfl
  shift := rfl
  lazyFileTransform := rfl
  bytes := by
    rcases hs.bytes with h | h
    · exact .inl ⟨h, h⟩
    · exact .inr ⟨by have := hp.nonempty; omega, h⟩
  readable := by
    rcases hs.readable with h | ⟨h, -⟩
    · exact .inl ⟨h, h⟩
    · exact .inr ⟨by have := hp.nonempty; omega, h⟩
  contents k _ _ := by simp

theorem isSlice_slice {m : Mapping} {sliceStart sliceEnd : Nat}
    {permissions maximumPermissions : Permission} (h1 : m.base ≤ sliceStart)
    (h2 : sliceStart < sliceEnd) (h3 : sliceEnd ≤ m.base + m.size)
    (hs : sliceStart % guestPageSize = 0) (he : sliceEnd % guestPageSize = 0)
    (hwithin : maximumPermissions.has permissions = true) :
    IsSlice m (slice m sliceStart sliceEnd permissions maximumPermissions) where
  base := h1
  limit := by simp only [slice]; omega
  nonempty := by simp only [slice]; omega
  baseAligned := hs
  sizeAligned := by
    simp only [slice, guestPageSize] at *
    omega
  within := hwithin
  fileBytes := rfl
  shift := by simp only [slice]; omega
  lazyFileTransform := rfl
  bytes := by
    by_cases h : m.bytes.size = 0
    · exact .inl ⟨h, by simp [slice, h, HostVector.empty]⟩
    · exact .inr ⟨h, by simp [slice, h, HostVector.extract]⟩
  readable := by
    by_cases h : m.readableBytes.size = 0
    · exact .inl ⟨h, by simp [slice, h, HostVector.empty]⟩
    · exact .inr ⟨h, by simp [slice, h, HostVector.extract]⟩
  contents k _ h := by simp [slice, h, HostVector.extract]

theorem IsSlice.placed {m p : Mapping} (h : IsSlice m p) (hm : m.Placed) : p.Placed :=
  ⟨h.nonempty, h.baseAligned, h.sizeAligned, lt_of_le_of_lt h.limit hm.below, h.within⟩

theorem IsSlice.shaped {m p : Mapping} (h : IsSlice m p) (hm : m.Shaped s) : p.Shaped s where
  bytes := by
    rcases h.bytes with ⟨-, h⟩ | ⟨-, h⟩
    · exact .inl h
    · exact .inr h
  readable := by
    rcases h.readable with ⟨-, h'⟩ | ⟨hne, h'⟩
    · exact .inl h'
    · refine .inr ⟨h', ?_⟩
      rcases hm.readable with h0 | ⟨hr, hb⟩
      · exact absurd h0 hne
      · rcases h.bytes with ⟨h0, -⟩ | ⟨-, h1⟩
        · omega
        · exact h1
  file f hf := by
    obtain ⟨h1, h2⟩ := hm.file f (h.fileBytes ▸ hf)
    refine ⟨h1, ?_⟩
    have := h.shift
    have := h.limit
    omega
  lazyTransform t ht := by
    obtain ⟨h1, h2, h3, h4, f, hf, h5⟩ := hm.lazyTransform t (h.lazyFileTransform ▸ ht)
    have := h.shift
    have := h.limit
    have := h.base
    exact ⟨h1, h2, by omega, by omega, f, h.fileBytes ▸ hf, h5⟩

theorem IsSlice.hasBacking {m p : Mapping} (h : IsSlice m p) (hp : m.Placed) (hm : m.HasBacking) :
    p.HasBacking := by
  rcases hm with hm | hm
  · exact .inl (h.fileBytes ▸ hm)
  · rcases h.bytes with ⟨h0, -⟩ | ⟨-, h1⟩
    · have := hp.nonempty
      omega
    · exact .inr h1

/-- Cutting every mapping into slices keeps the invariant. -/
theorem Inv.flatMap (hi : Inv s) {pieces : Mapping → List Mapping}
    (hslice : ∀ m ∈ s.mappings, ∀ p ∈ pieces m, IsSlice m p)
    (hsorted : ∀ m ∈ s.mappings, Sorted (pieces m)) :
    Inv (invalidateMappingLookup { s with mappings := s.mappings.flatMap pieces }) where
  placed p hp := by
    obtain ⟨m, hm, hp⟩ := List.mem_flatMap.mp hp
    exact (hslice m hm p hp).placed (hi.placed m hm)
  sorted := by
    refine List.pairwise_flatMap.mpr ⟨hsorted, ?_⟩
    refine List.Pairwise.imp_of_mem ?_ hi.sorted
    intro a b ha hb hab p hp q hq
    have := (hslice a ha p hp).limit
    have := (hslice b hb q hq).base
    omega
  shaped p hp := by
    obtain ⟨m, hm, hp⟩ := List.mem_flatMap.mp hp
    have := (hslice m hm p hp).shaped (hi.shaped m hm)
    exact ⟨this.bytes, this.readable, this.file, this.lazyTransform⟩
  shift p hp q hq f hfp hfq := by
    obtain ⟨a, ha, hp⟩ := List.mem_flatMap.mp hp
    obtain ⟨b, hb, hq⟩ := List.mem_flatMap.mp hq
    have h1 := hslice a ha p hp
    have h2 := hslice b hb q hq
    have := hi.shift a ha b hb f (h1.fileBytes ▸ hfp) (h2.fileBytes ▸ hfq)
    have := h1.shift
    have := h2.shift
    omega
  lookup slot entry he := by cases he

theorem pageRange_eq_some {address size start limit : Nat} (hsize : 0 < size)
    (h : pageRange address size = some (start, limit)) :
    start % guestPageSize = 0 ∧ limit % guestPageSize = 0 ∧ start < limit ∧ limit < 2 ^ 64 ∧
      start ≤ address ∧ address + size ≤ limit := by
  unfold pageRange at h
  split at h
  · cases h
  · split at h
    · cases h
    · obtain ⟨rfl, rfl⟩ : _ ∧ _ := by simpa using h
      simp only [guestPageSize] at *
      omega

/-- The mapping has a byte of the range. -/
def Overlaps (start limit : Nat) (m : Mapping) : Prop :=
  ∃ a, start ≤ a ∧ a < limit ∧ m.base ≤ a ∧ a < m.base + m.size

theorem outsideRange_eq_false {start limit : Nat} {m : Mapping} (hm : m.Placed)
    (hlt : start < limit) : outsideRange start limit m = false ↔ Overlaps start limit m := by
  have := hm.nonempty
  simp only [outsideRange, hm.limit_eq, Bool.or_eq_false_iff, decide_eq_false_iff_not, not_le]
  constructor
  · rintro ⟨h1, h2⟩
    exact ⟨max start m.base, by omega, by omega, by omega, by omega⟩
  · rintro ⟨a, h1, h2, h3, h4⟩
    omega

/-- The first loop of `protect` sees every mapping of the range. -/
theorem scanRange_spec (hi : Inv s) {permissions : Permission} {makePrivateCopy : Bool}
    {limit : Nat} : ∀ {fuel cursor : Nat} {flag result : Bool},
    scanRange s.mappings permissions makePrivateCopy limit fuel cursor flag = .ok result →
    (flag = true → result = true) ∧ ∀ m ∈ s.mappings, Overlaps cursor limit m →
      (m.permissions.execute = true → result = true) ∧
      (makePrivateCopy = false → m.maximumPermissions.has permissions = true)
  | 0, _, _, _, h => by simp [scanRange] at h
  | fuel + 1, cursor, flag, result, h => by
    rw [scanRange] at h
    split at h
    · cases h
      refine ⟨id, ?_⟩
      rintro m - ⟨a, h1, h2, -⟩
      omega
    · split at h
      · cases h
      · next hlt m hm =>
        obtain ⟨⟨i, m'⟩, hfound, rfl⟩ := Option.map_eq_some_iff.mp hm
        obtain ⟨hidx, hbase, hlimit⟩ := (mappingHolding_iff hi.sorted Nat.one_pos).mp hfound
        have hmem := List.mem_of_getElem? hidx
        split at h
        · cases h
        · next hpermitted =>
          obtain ⟨hflag, hrest⟩ := scanRange_spec hi h
          refine ⟨fun hf => hflag (by simp [hf]), fun a ha hover => ?_⟩
          obtain ⟨b, h1, h2, h3, h4⟩ := hover
          rw [(hi.placed m' hmem).limit_eq] at hrest
          rcases Nat.lt_or_ge b (m'.base + m'.size) with hb | hb
          · -- the byte is in the mapping at the cursor
            obtain ⟨j, hj⟩ := List.getElem?_of_mem ha
            have hsame := hi.sorted.unique hj hidx (by omega) (by omega)
            obtain rfl : m' = a := by simpa [hsame, hidx] using hj
            refine ⟨fun hx => hflag (by simp [hx]), fun hcopy => ?_⟩
            simpa [hcopy] using hpermitted
          · exact hrest a ha ⟨b, by omega, h2, h3, h4⟩

/-- What `protect` puts in the place of a mapping. -/
theorem protectPieces_spec {start limit : Nat} {permissions : Permission}
    {makePrivateCopy : Bool} {m : Mapping} (hp : m.Placed) (hs : m.Shaped s)
    (hstart : start % guestPageSize = 0) (hlimit : limit % guestPageSize = 0)
    (hlt : start < limit)
    (hwithin : Overlaps start limit m → makePrivateCopy = false →
      m.maximumPermissions.has permissions = true) :
    (∀ p ∈ protectPieces start limit permissions makePrivateCopy m, IsSlice m p ∧
      ((p.permissions = m.permissions ∧ p.maximumPermissions = m.maximumPermissions) ∨
        (Overlaps start limit m ∧ p.permissions = permissions ∧
          p.maximumPermissions = if makePrivateCopy then permissions else m.maximumPermissions))) ∧
      Sorted (protectPieces start limit permissions makePrivateCopy m) := by
  have hle := hp.limit_eq
  have hbase := hp.baseAligned
  have hsize := hp.sizeAligned
  unfold protectPieces
  split
  · refine ⟨fun p hmem => ?_, List.pairwise_singleton _ _⟩
    obtain rfl := List.mem_singleton.mp hmem
    exact ⟨.refl hp hs, .inl ⟨rfl, rfl⟩⟩
  · next hout =>
    have hover := (outsideRange_eq_false hp hlt).mp (by simpa using hout)
    obtain ⟨a, h1, h2, h3, h4⟩ := hover
    have hover : Overlaps start limit m := ⟨a, h1, h2, h3, h4⟩
    have hend : m.limit % guestPageSize = 0 := by
      rw [hle]
      simp only [guestPageSize] at *
      omega
    have hmax : (max m.base start) % guestPageSize = 0 := by
      rw [Nat.max_def]
      split <;> assumption
    have hmin : (min m.limit limit) % guestPageSize = 0 := by
      rw [Nat.min_def]
      split <;> assumption
    have hmiddle : IsSlice m (slice m (max m.base start) (min m.limit limit) permissions
        (if makePrivateCopy then permissions else m.maximumPermissions)) := by
      refine isSlice_slice (by omega) (by omega) (by omega) hmax hmin ?_
      cases makePrivateCopy with
      | true => exact Permission.has_self _
      | false => exact hwithin hover rfl
    constructor
    · intro p hmem
      simp only [List.append_assoc, List.mem_append, List.mem_cons, List.not_mem_nil, or_false] at hmem
      rcases hmem with hmem | rfl | hmem
      · split at hmem
        · obtain rfl := List.mem_singleton.mp hmem
          exact ⟨isSlice_slice (le_refl _) (by omega) (by omega) hbase hstart hp.within,
            .inl ⟨rfl, rfl⟩⟩
        · simp at hmem
      · exact ⟨hmiddle, .inr ⟨hover, rfl, rfl⟩⟩
      · split at hmem
        · obtain rfl := List.mem_singleton.mp hmem
          exact ⟨isSlice_slice (by omega) (by omega) (by omega) hmin hend hp.within,
            .inl ⟨rfl, rfl⟩⟩
        · simp at hmem
    · unfold Sorted
      by_cases hleft : m.base < start <;> by_cases hright : min m.limit limit < m.limit
      all_goals
        simp only [hleft, hright, if_true, if_false, List.nil_append, List.append_nil,
          List.cons_append, List.pairwise_cons, List.mem_cons, List.not_mem_nil, or_false,
          forall_eq_or_imp, forall_eq, slice, keepSlice, List.Pairwise.nil, and_true,
          false_imp_iff, implies_true]
      all_goals omega

/-- The space after a successful `protect` of a range. -/
structure Protected (s : AddressSpace) (address size : Nat) (permissions : Permission)
    (makePrivateCopy : Bool) (start limit : Nat) (flag : Bool) (s' : AddressSpace) : Prop where
  range : pageRange address size = some (start, limit)
  nonempty : 0 < size
  space : s' = bumped flag (invalidateMappingLookup
    { s with
      mappings := s.mappings.flatMap (protectPieces start limit permissions makePrivateCopy) })
  scan : scanRange s.mappings permissions makePrivateCopy limit (s.mappings.length + 1) start
    permissions.execute = .ok flag

theorem protect_spec (address size : Nat) (permissions : Permission)
    (makePrivateCopy : Bool) :
    Post (protect address size permissions makePrivateCopy) s
      (fun _ s' => s' = s ∨ ∃ start limit flag,
        Protected s address size permissions makePrivateCopy start limit flag s')
      fun _ _ => False := by
  unfold protect
  split
  · exact Post.pure (.inl rfl)
  · next hsize =>
    split
    · exact Post.pure (.inl rfl)
    · next start limit hrange =>
      refine Post.bind (Post.get ?_)
      split
      · exact Post.pure (.inl rfl)
      · next flag hscan =>
        exact .inr ⟨start, limit, flag, hrange, by omega, rfl, hscan⟩

theorem Protected.pieces {address size start limit : Nat} {permissions : Permission}
    {makePrivateCopy flag : Bool} (hi : Inv s)
    (h : Protected s address size permissions makePrivateCopy start limit flag s') {m : Mapping}
    (hm : m ∈ s.mappings) :
    (∀ p ∈ protectPieces start limit permissions makePrivateCopy m, IsSlice m p ∧
      ((p.permissions = m.permissions ∧ p.maximumPermissions = m.maximumPermissions) ∨
        (Overlaps start limit m ∧ p.permissions = permissions ∧
          p.maximumPermissions = if makePrivateCopy then permissions else m.maximumPermissions))) ∧
      Sorted (protectPieces start limit permissions makePrivateCopy m) := by
  obtain ⟨h1, h2, h3, -⟩ := pageRange_eq_some h.nonempty h.range
  exact protectPieces_spec (hi.placed m hm) (hi.shaped m hm) h1 h2 h3
    fun hover => ((scanRange_spec hi h.scan).2 m hm hover).2

theorem Protected.inv {address size start limit : Nat} {permissions : Permission}
    {makePrivateCopy flag : Bool} (hi : Inv s)
    (h : Protected s address size permissions makePrivateCopy start limit flag s') : Inv s' := by
  rw [h.space]
  exact bumped_inv (hi.flatMap (fun m hm p hp => ((h.pieces hi hm).1 p hp).1)
    fun m hm => (h.pieces hi hm).2)

/-- `protect` keeps the space backed unless a private copy makes a reservation accessible. -/
theorem Protected.backed {address size start limit : Nat} {permissions : Permission}
    {makePrivateCopy flag : Bool} (hi : Inv s)
    (h : Protected s address size permissions makePrivateCopy start limit flag s')
    (hb : Backed s)
    (hcopy : makePrivateCopy = true → permissions = .none ∨
      ∀ m ∈ s.mappings, Overlaps start limit m → m.HasBacking) : Backed s' := by
  rw [h.space]
  intro p hp hmax
  obtain ⟨m, hm, hp⟩ := List.mem_flatMap.mp hp
  obtain ⟨hslice, hkeep | ⟨hover, hperm, hnew⟩⟩ := (h.pieces hi hm).1 p hp
  · exact hslice.hasBacking (hi.placed m hm) (hb m hm (hkeep.2 ▸ hmax))
  · refine hslice.hasBacking (hi.placed m hm) ?_
    cases makePrivateCopy with
    | false => exact hb m hm (by rw [hnew] at hmax; exact hmax)
    | true =>
      rcases hcopy rfl with hnone | hall
      · rw [hnew, if_pos rfl] at hmax
        exact absurd hnone hmax
      · exact hall m hm hover

/-- What `deallocate` leaves of a mapping. -/
theorem deallocatePieces_spec {start limit : Nat} {m : Mapping} (hp : m.Placed)
    (hs : m.Shaped s) (hstart : start % guestPageSize = 0) (hlimit : limit % guestPageSize = 0)
    (hlt : start < limit) :
    (∀ p ∈ deallocatePieces start limit m, IsSlice m p ∧ p.permissions = m.permissions ∧
      p.maximumPermissions = m.maximumPermissions) ∧ Sorted (deallocatePieces start limit m) := by
  have hle := hp.limit_eq
  have hbase := hp.baseAligned
  have hsize := hp.sizeAligned
  unfold deallocatePieces
  split
  · refine ⟨fun p hmem => ?_, List.pairwise_singleton _ _⟩
    obtain rfl := List.mem_singleton.mp hmem
    exact ⟨.refl hp hs, rfl, rfl⟩
  · next hout =>
    obtain ⟨a, h1, h2, h3, h4⟩ := (outsideRange_eq_false hp hlt).mp (by simpa using hout)
    have hend : m.limit % guestPageSize = 0 := by
      rw [hle]
      simp only [guestPageSize] at *
      omega
    constructor
    · intro p hmem
      rcases List.mem_append.mp hmem with hmem | hmem
      · split at hmem
        · obtain rfl := List.mem_singleton.mp hmem
          exact ⟨isSlice_slice (le_refl _) (by omega) (by omega) hbase hstart hp.within, rfl, rfl⟩
        · simp at hmem
      · split at hmem
        · obtain rfl := List.mem_singleton.mp hmem
          exact ⟨isSlice_slice (by omega) (by omega) (by omega) hlimit hend hp.within, rfl, rfl⟩
        · simp at hmem
    · unfold Sorted
      by_cases hleft : m.base < start <;> by_cases hright : limit < m.limit
      all_goals
        simp only [hleft, hright, if_true, if_false, List.nil_append, List.append_nil,
          List.cons_append, List.pairwise_cons, List.mem_cons, List.not_mem_nil, or_false,
          forall_eq, slice, keepSlice, List.Pairwise.nil, and_true, false_imp_iff, implies_true]
      all_goals omega

/-- The space after a successful `deallocate` of a range. -/
structure Deallocated (s : AddressSpace) (address size start limit : Nat) (flag : Bool)
    (s' : AddressSpace) : Prop where
  range : pageRange address size = some (start, limit)
  nonempty : 0 < size
  space : s' = bumped flag (invalidateMappingLookup
    { s with mappings := s.mappings.flatMap (deallocatePieces start limit) })
  overlapping : ∀ m ∈ s.mappings, Overlaps start limit m → m.permissions.execute = true →
    flag = true

theorem deallocate_spec (hi : Inv s) (address size : Nat) :
    Post (deallocate address size) s
      (fun r s' => (s' = s ∧ (r = .success → size = 0)) ∨
        (r = .success ∧ ∃ start limit flag, Deallocated s address size start limit flag s'))
      fun _ _ => False := by
  unfold deallocate
  split
  · next hsize => exact Post.pure (.inl ⟨rfl, fun _ => hsize⟩)
  · next hsize =>
    split
    · exact Post.pure (.inl ⟨rfl, by simp⟩)
    · next start limit hrange =>
      obtain ⟨-, -, hlt, -⟩ := pageRange_eq_some (Nat.pos_of_ne_zero hsize) hrange
      refine .inr ⟨rfl, start, limit, _, hrange, by omega, rfl, fun m hm hover hx => ?_⟩
      refine List.any_eq_true.mpr ⟨m, hm, ?_⟩
      simp [(outsideRange_eq_false (hi.placed m hm) hlt).mpr hover, hx]

theorem Deallocated.pieces {address size start limit : Nat} {flag : Bool} (hi : Inv s)
    (h : Deallocated s address size start limit flag s') {m : Mapping} (hm : m ∈ s.mappings) :
    (∀ p ∈ deallocatePieces start limit m, IsSlice m p ∧ p.permissions = m.permissions ∧
      p.maximumPermissions = m.maximumPermissions) ∧ Sorted (deallocatePieces start limit m) := by
  obtain ⟨h1, h2, h3, -⟩ := pageRange_eq_some h.nonempty h.range
  exact deallocatePieces_spec (hi.placed m hm) (hi.shaped m hm) h1 h2 h3

theorem Deallocated.inv {address size start limit : Nat} {flag : Bool} (hi : Inv s)
    (h : Deallocated s address size start limit flag s') : Inv s' := by
  rw [h.space]
  exact bumped_inv (hi.flatMap (fun m hm p hp => ((h.pieces hi hm).1 p hp).1)
    fun m hm => (h.pieces hi hm).2)

theorem Deallocated.backed {address size start limit : Nat} {flag : Bool} (hi : Inv s)
    (h : Deallocated s address size start limit flag s') (hb : Backed s) : Backed s' := by
  rw [h.space]
  intro p hp hmax
  obtain ⟨m, hm, hp⟩ := List.mem_flatMap.mp hp
  obtain ⟨hslice, -, hsame⟩ := (h.pieces hi hm).1 p hp
  exact hslice.hasBacking (hi.placed m hm) (hb m hm (hsame ▸ hmax))

end AddressSpace

end Rosa
