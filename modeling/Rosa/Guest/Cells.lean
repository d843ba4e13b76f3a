import Rosa.Guest.Calls

/-!
# Guest memory, byte by byte

A space seen from the guest is a function from addresses to cells : what a mapping says about
one of its bytes, with its permissions, its label and where the byte is kept. How the mappings
are cut does not show in it. `protect` and `deallocate` cut mappings into slices, and in terms of
cells they change exactly the pages that meet the range (`protect_pages`, `deallocate_pages`).
-/

namespace Rosa

namespace AddressSpace

open Rosa.Computation

variable {s s' : AddressSpace}

/-! ## Cells -/

/-- What a mapping says about one byte : `byte` and `readable` if the mapping has bytes and
marks of its own, `file` with the position in the file. -/
structure Cell where
  permissions : Permission
  maximumPermissions : Permission
  label : String
  byte : Option Byte
  file : Option (FileId × Nat)
  lazyFileTransform : Option TransformId
  readable : Option Bool
  deriving DecidableEq

/-- The mapping holds the address. -/
def Holds (m : Mapping) (a : Nat) : Prop := m.base ≤ a ∧ a < m.base + m.size

/-- The cell of an address of the mapping. -/
def cell (m : Mapping) (a : Nat) : Cell where
  permissions := m.permissions
  maximumPermissions := m.maximumPermissions
  label := m.label
  byte := if m.bytes.size = 0 then none else some (m.bytes.get (a - m.base))
  file := m.fileBytes.map fun f => (f, m.fileDataOffset + (a - m.base))
  lazyFileTransform := m.lazyFileTransform
  readable := if m.readableBytes.size = 0 then none else some (m.readableBytes.get (a - m.base))

/-- Guest memory as a whole. -/
abbrev Cells := Nat → Option Cell

/-- The memory that a space stands for. -/
def cells (s : AddressSpace) : Cells := fun a =>
  (mappingContaining s.mappings a).map fun m => cell m a

theorem cells_of_holds (hi : Inv s) {m : Mapping} {a : Nat} (hm : m ∈ s.mappings)
    (h : Holds m a) : s.cells a = some (cell m a) := by
  obtain ⟨i, hindex⟩ := List.getElem?_of_mem hm
  have hlt := h.2
  rw [cells, mappingContaining,
    mappingHolding_of_holds hi.sorted hindex h.1 hlt (by omega)]
  rfl

theorem cells_eq_none {a : Nat} (hi : Inv s) (h : ∀ m ∈ s.mappings, ¬Holds m a) :
    s.cells a = none := by
  unfold cells mappingContaining
  cases hfound : mappingHolding s.mappings a 1 with
  | none => rfl
  | some found =>
    obtain ⟨i, m⟩ := found
    obtain ⟨hindex, hbase, hlimit⟩ := (mappingHolding_iff hi.sorted Nat.one_pos).mp hfound
    exact absurd ⟨hbase, by omega⟩ (h m (List.mem_of_getElem? hindex))

/-- The cell of a slice. -/
theorem cell_slice {m : Mapping} {sliceStart sliceEnd a : Nat}
    {permissions maximumPermissions : Permission} (hbase : m.base ≤ sliceStart)
    (hstart : sliceStart ≤ a) (hend : a < sliceEnd) :
    cell (slice m sliceStart sliceEnd permissions maximumPermissions) a =
      { cell m a with permissions := permissions, maximumPermissions := maximumPermissions } := by
  have hoffset : sliceStart - m.base + (a - sliceStart) = a - m.base := by omega
  have hsize : sliceEnd - sliceStart ≠ 0 := by omega
  have hfile : m.fileDataOffset + (sliceStart - m.base) + (a - sliceStart) =
      m.fileDataOffset + (a - m.base) := by omega
  by_cases hb : m.bytes.size = 0 <;> by_cases hr : m.readableBytes.size = 0 <;>
    simp [cell, slice, hb, hr, HostVector.empty, HostVector.extract, hoffset, hsize, hfile]

/-! ## Pages -/

/-- The address is on a page that meets the range. -/
def OnPages (address size a : Nat) : Prop :=
  ∃ b, address ≤ b ∧ b < address + size ∧ b / guestPageSize = a / guestPageSize

/-- The page-rounded range has the addresses of the pages that meet the range. -/
theorem onPages_iff {address size start limit a : Nat} (hsize : 0 < size)
    (h : pageRange address size = some (start, limit)) :
    OnPages address size a ↔ start ≤ a ∧ a < limit := by
  unfold pageRange at h
  split at h
  · cases h
  · split at h
    · cases h
    · obtain ⟨rfl, rfl⟩ : _ ∧ _ := by simpa using h
      simp only [guestPageSize, OnPages] at *
      constructor
      · rintro ⟨b, h1, h2, h3⟩
        omega
      · intro ha
        by_cases hlow : a < address
        · exact ⟨address, by omega, by omega, by omega⟩
        · by_cases hhigh : a < address + size
          · exact ⟨a, by omega, hhigh, rfl⟩
          · exact ⟨address + size - 1, by omega, by omega, by omega⟩

/-- What `protect` does to a cell. -/
def Cell.protect (permissions : Permission) (makePrivateCopy : Bool) (c : Cell) : Cell :=
  { c with
    permissions := permissions
    maximumPermissions := if makePrivateCopy then permissions else c.maximumPermissions }

/-- `protect` may change the cell. -/
def Cell.Protectable (permissions : Permission) (makePrivateCopy : Bool) (c : Cell) : Prop :=
  makePrivateCopy = false → c.maximumPermissions.has permissions = true

open Classical in
/-- The pages of a range with new permissions. -/
noncomputable def Cells.protect (memory : Cells) (address size : Nat) (permissions : Permission)
    (makePrivateCopy : Bool) : Cells := fun a =>
  if OnPages address size a then (memory a).map (Cell.protect permissions makePrivateCopy)
  else memory a

open Classical in
/-- The pages of a range taken away. -/
noncomputable def Cells.deallocate (memory : Cells) (address size : Nat) : Cells := fun a =>
  if OnPages address size a then none else memory a

/-- Every page that meets the range is mapped and may get the permissions. -/
def Cells.ProtectableOn (memory : Cells) (address size : Nat) (permissions : Permission)
    (makePrivateCopy : Bool) : Prop :=
  ∀ a, OnPages address size a → ∃ c, memory a = some c ∧ c.Protectable permissions makePrivateCopy

theorem Cell.protect_protect (permissions : Permission) (makePrivateCopy : Bool) (c : Cell) :
    (c.protect permissions makePrivateCopy).protect permissions makePrivateCopy =
      c.protect permissions makePrivateCopy := by
  cases makePrivateCopy <;> rfl

theorem Cell.protectable_protect {permissions : Permission} {makePrivateCopy : Bool} {c : Cell} :
    (c.protect permissions makePrivateCopy).Protectable permissions makePrivateCopy ↔
      c.Protectable permissions makePrivateCopy := by
  cases makePrivateCopy <;> simp [Cell.Protectable, Cell.protect]

/-- The pages of a range are the pages of its parts. -/
theorem onPages_append {address first second a : Nat} :
    OnPages address (first + second) a ↔
      OnPages address first a ∨ OnPages (address + first) second a := by
  constructor
  · rintro ⟨b, h1, h2, h3⟩
    by_cases hb : b < address + first
    · exact .inl ⟨b, h1, hb, h3⟩
    · exact .inr ⟨b, by omega, by omega, h3⟩
  · rintro (⟨b, h1, h2, h3⟩ | ⟨b, h1, h2, h3⟩)
    · exact ⟨b, h1, by omega, h3⟩
    · exact ⟨b, by omega, by omega, h3⟩

/-- Two neighbouring ranges, one after the other, are the range as a whole. -/
theorem Cells.protect_protect (memory : Cells) (address first second : Nat)
    (permissions : Permission) (makePrivateCopy : Bool) :
    (memory.protect address first permissions makePrivateCopy).protect (address + first) second
        permissions makePrivateCopy =
      memory.protect address (first + second) permissions makePrivateCopy := by
  funext a
  unfold Cells.protect
  by_cases h1 : OnPages address first a <;> by_cases h2 : OnPages (address + first) second a
  · rw [if_pos h2, if_pos h1, if_pos (onPages_append.mpr (.inl h1)), Option.map_map]
    congr 1
    funext c
    exact c.protect_protect permissions makePrivateCopy
  · rw [if_neg h2, if_pos h1, if_pos (onPages_append.mpr (.inl h1))]
  · rw [if_pos h2, if_neg h1, if_pos (onPages_append.mpr (.inr h2))]
  · rw [if_neg h2, if_neg h1, if_neg fun h => (onPages_append.mp h).elim h1 h2]

theorem Cells.protectableOn_append {memory : Cells} {address first second : Nat}
    {permissions : Permission} {makePrivateCopy : Bool} :
    memory.ProtectableOn address (first + second) permissions makePrivateCopy ↔
      memory.ProtectableOn address first permissions makePrivateCopy ∧
        (memory.protect address first permissions makePrivateCopy).ProtectableOn (address + first)
          second permissions makePrivateCopy := by
  constructor
  · intro h
    refine ⟨fun a ha => h a (onPages_append.mpr (.inl ha)), fun a ha => ?_⟩
    obtain ⟨c, hc, hp⟩ := h a (onPages_append.mpr (.inr ha))
    unfold Cells.protect
    split
    · exact ⟨_, by rw [hc]; rfl, Cell.protectable_protect.mpr hp⟩
    · exact ⟨c, hc, hp⟩
  · rintro ⟨h1, h2⟩ a ha
    by_cases hfirst : OnPages address first a
    · exact h1 a hfirst
    · obtain ⟨c, hc, hp⟩ := h2 a ((onPages_append.mp ha).resolve_left hfirst)
      rw [Cells.protect, if_neg hfirst] at hc
      exact ⟨c, hc, hp⟩

/-! ## Pieces -/

section

variable {m : Mapping} {start limit a : Nat}

theorem holds_keepSlice {sliceStart sliceEnd : Nat} (hbase : m.base ≤ sliceStart)
    (hstart : sliceStart ≤ a) (hend : a < sliceEnd) :
    Holds (keepSlice m sliceStart sliceEnd) a ∧ cell (keepSlice m sliceStart sliceEnd) a = cell m a := by
  refine ⟨⟨hstart, ?_⟩, cell_slice hbase hstart hend⟩
  simp only [keepSlice, slice]
  omega

/-- Outside the range `protect` leaves the cells of a mapping. -/
theorem protectPieces_outside {permissions : Permission} {makePrivateCopy : Bool} (hp : m.Placed)
    (h : Holds m a) (ha : ¬(start ≤ a ∧ a < limit)) :
    ∃ p ∈ protectPieces start limit permissions makePrivateCopy m,
      Holds p a ∧ cell p a = cell m a := by
  obtain ⟨hbase, hbelow⟩ := h
  have hlimit := hp.limit_eq
  unfold protectPieces
  split
  · exact ⟨m, by simp, ⟨hbase, hbelow⟩, rfl⟩
  · next hout =>
    simp only [outsideRange, hlimit, Bool.or_eq_true, decide_eq_true_eq, not_or, not_le] at hout
    by_cases hleft : a < start
    · exact ⟨keepSlice m m.base start, by simp [show m.base < start by omega],
        holds_keepSlice le_rfl hbase hleft⟩
    · have hright : min m.limit limit < m.limit := by omega
      exact ⟨keepSlice m (min m.limit limit) m.limit, by simp [hright],
        holds_keepSlice (by omega) (by omega) (by omega)⟩

/-- Inside the range it changes the permissions of the cells. -/
theorem protectPieces_inside {permissions : Permission} {makePrivateCopy : Bool} (hp : m.Placed)
    (h : Holds m a) (ha : start ≤ a ∧ a < limit) :
    ∃ p ∈ protectPieces start limit permissions makePrivateCopy m,
      Holds p a ∧ cell p a = (cell m a).protect permissions makePrivateCopy := by
  obtain ⟨hbase, hbelow⟩ := h
  have hlimit := hp.limit_eq
  unfold protectPieces
  have hout : ¬outsideRange start limit m = true := by
    simp only [outsideRange, hlimit, Bool.or_eq_true, decide_eq_true_eq]
    omega
  rw [if_neg hout]
  refine ⟨slice m (max m.base start) (min m.limit limit) permissions
    (if makePrivateCopy then permissions else m.maximumPermissions), by simp, ⟨?_, ?_⟩, ?_⟩
  · simp only [slice]
    omega
  · simp only [slice]
    omega
  · rw [cell_slice (by omega) (by omega) (by omega)]
    rfl

/-- Outside the range `deallocate` leaves the cells of a mapping. -/
theorem deallocatePieces_outside (hp : m.Placed) (h : Holds m a) (ha : ¬(start ≤ a ∧ a < limit)) :
    ∃ p ∈ deallocatePieces start limit m, Holds p a ∧ cell p a = cell m a := by
  obtain ⟨hbase, hbelow⟩ := h
  have hlimit := hp.limit_eq
  unfold deallocatePieces
  split
  · exact ⟨m, by simp, ⟨hbase, hbelow⟩, rfl⟩
  · next hout =>
    simp only [outsideRange, hlimit, Bool.or_eq_true, decide_eq_true_eq, not_or, not_le] at hout
    by_cases hleft : a < start
    · exact ⟨keepSlice m m.base start, by simp [show m.base < start by omega],
        holds_keepSlice le_rfl hbase hleft⟩
    · exact ⟨keepSlice m limit m.limit, by simp [show limit < m.limit by omega],
        holds_keepSlice (by omega) (by omega) (by omega)⟩

/-- Inside the range it leaves nothing. -/
theorem deallocatePieces_inside (hp : m.Placed) (ha : start ≤ a ∧ a < limit) :
    ∀ p ∈ deallocatePieces start limit m, ¬Holds p a := by
  intro p hmem hholds
  have hlimit := hp.limit_eq
  obtain ⟨h1, h2⟩ := hholds
  unfold deallocatePieces at hmem
  split at hmem
  · next hout =>
    obtain rfl := List.mem_singleton.mp hmem
    simp only [outsideRange, hlimit, Bool.or_eq_true, decide_eq_true_eq] at hout
    omega
  · rcases List.mem_append.mp hmem with hmem | hmem
    · split at hmem
      · obtain rfl := List.mem_singleton.mp hmem
        simp only [keepSlice, slice] at h1 h2
        omega
      · simp at hmem
    · split at hmem
      · obtain rfl := List.mem_singleton.mp hmem
        simp only [keepSlice, slice] at h1 h2
        omega
      · simp at hmem

end

/-- The address has no mapping, or just one cell. -/
theorem cells_cases (hi : Inv s) (a : Nat) :
    (∃ m ∈ s.mappings, Holds m a ∧ s.cells a = some (cell m a)) ∨
      ((∀ m ∈ s.mappings, ¬Holds m a) ∧ s.cells a = none) := by
  by_cases h : ∃ m ∈ s.mappings, Holds m a
  · obtain ⟨m, hm, hholds⟩ := h
    exact .inl ⟨m, hm, hholds, cells_of_holds hi hm hholds⟩
  · have hnone : ∀ m ∈ s.mappings, ¬Holds m a := fun m hm hholds => h ⟨m, hm, hholds⟩
    exact .inr ⟨hnone, cells_eq_none hi hnone⟩

/-- A slice holds no address that its source does not hold. -/
theorem IsSlice.holds {m p : Mapping} {a : Nat} (h : IsSlice m p) (hp : Holds p a) : Holds m a := by
  obtain ⟨h1, h2⟩ := hp
  have := h.base
  have := h.limit
  exact ⟨by omega, by omega⟩

theorem Protected.cells_eq {address size start limit : Nat} {permissions : Permission}
    {makePrivateCopy flag : Bool} (hi : Inv s)
    (h : Protected s address size permissions makePrivateCopy start limit flag s') :
    s'.cells = s.cells.protect address size permissions makePrivateCopy := by
  have hi' := h.inv hi
  have hmappings : s'.mappings =
      s.mappings.flatMap (protectPieces start limit permissions makePrivateCopy) := by
    rw [h.space]
    rfl
  funext a
  unfold Cells.protect
  rw [onPages_iff h.nonempty h.range]
  rcases cells_cases hi a with ⟨m, hm, hholds, hcell⟩ | ⟨hnone, hcell⟩
  · rw [hcell]
    split
    · next ha =>
      obtain ⟨p, hp, hph, hpc⟩ := protectPieces_inside (hi.placed m hm) hholds ha
      rw [cells_of_holds hi' (hmappings ▸ List.mem_flatMap.mpr ⟨m, hm, hp⟩) hph, hpc]
      rfl
    · next ha =>
      obtain ⟨p, hp, hph, hpc⟩ := protectPieces_outside (hi.placed m hm) hholds ha
      rw [cells_of_holds hi' (hmappings ▸ List.mem_flatMap.mpr ⟨m, hm, hp⟩) hph, hpc]
  · have hnone' : s'.cells a = none := by
      refine cells_eq_none hi' fun p hp hph => ?_
      obtain ⟨m, hm, hp⟩ := List.mem_flatMap.mp (hmappings ▸ hp)
      exact hnone m hm (((h.pieces hi hm).1 p hp).1.holds hph)
    rw [hcell, hnone']
    split <;> rfl

theorem Deallocated.cells_eq {address size start limit : Nat} {flag : Bool} (hi : Inv s)
    (h : Deallocated s address size start limit flag s') :
    s'.cells = s.cells.deallocate address size := by
  have hi' := h.inv hi
  have hmappings : s'.mappings = s.mappings.flatMap (deallocatePieces start limit) := by
    rw [h.space]
    rfl
  funext a
  unfold Cells.deallocate
  rw [onPages_iff h.nonempty h.range]
  split
  · next ha =>
    refine cells_eq_none hi' fun p hp => ?_
    obtain ⟨m, hm, hp⟩ := List.mem_flatMap.mp (hmappings ▸ hp)
    exact deallocatePieces_inside (hi.placed m hm) ha p hp
  · next ha =>
    rcases cells_cases hi a with ⟨m, hm, hholds, hcell⟩ | ⟨hnone, hcell⟩
    · obtain ⟨p, hp, hph, hpc⟩ := deallocatePieces_outside (hi.placed m hm) hholds ha
      rw [hcell, cells_of_holds hi' (hmappings ▸ List.mem_flatMap.mpr ⟨m, hm, hp⟩) hph, hpc]
    · rw [hcell]
      refine cells_eq_none hi' fun p hp hph => ?_
      obtain ⟨m, hm, hp⟩ := List.mem_flatMap.mp (hmappings ▸ hp)
      exact hnone m hm (((h.pieces hi hm).1 p hp).1.holds hph)

/-! ## The first loop of `protect` -/

/-- The mappings that end after the cursor : the loop makes at most one turn for each. -/
def mappingsAfter (ms : List Mapping) (cursor : Nat) : List Mapping :=
  ms.filter fun m => cursor < m.base + m.size

theorem length_mappingsAfter_lt {ms : List Mapping} {m : Mapping} {cursor next : Nat}
    (hm : m ∈ ms) (hcursor : cursor < m.base + m.size) (hnext : m.base + m.size ≤ next) :
    (mappingsAfter ms next).length < (mappingsAfter ms cursor).length := by
  have hsub : (mappingsAfter ms next).Sublist (mappingsAfter ms cursor) := by
    refine List.monotone_filter_right _ fun x hx => ?_
    simp only [decide_eq_true_eq] at hx ⊢
    omega
  refine lt_of_le_of_ne hsub.length_le fun hlength => ?_
  have hin : m ∈ mappingsAfter ms next := by
    rw [hsub.eq_of_length hlength]
    exact List.mem_filter.mpr ⟨hm, by simpa using hcursor⟩
  have := (List.mem_filter.mp hin).2
  simp only [decide_eq_true_eq] at this
  omega

/-- The loop goes through if every byte of the range can be changed. -/
theorem scanRange_returns (hi : Inv s) {permissions : Permission} {makePrivateCopy : Bool}
    {limit : Nat} : ∀ {fuel cursor : Nat} {flag : Bool},
    (mappingsAfter s.mappings cursor).length < fuel →
    (∀ a, cursor ≤ a → a < limit →
      ∃ c, s.cells a = some c ∧ c.Protectable permissions makePrivateCopy) →
    ∃ result, scanRange s.mappings permissions makePrivateCopy limit fuel cursor flag = .ok result
  | 0, _, _, hfuel, _ => absurd hfuel (Nat.not_lt_zero _)
  | fuel + 1, cursor, flag, hfuel, h => by
    rw [scanRange]
    by_cases hdone : limit ≤ cursor
    · exact ⟨flag, if_pos hdone⟩
    · rw [if_neg hdone]
      obtain ⟨c, hc, hpermitted⟩ := h cursor le_rfl (by omega)
      obtain ⟨m, hcontaining, rfl⟩ := Option.map_eq_some_iff.mp hc
      obtain ⟨⟨i, m⟩, hfound, rfl⟩ := Option.map_eq_some_iff.mp hcontaining
      obtain ⟨hindex, hbase, hlimit⟩ := (mappingHolding_iff hi.sorted Nat.one_pos).mp hfound
      have hmem := List.mem_of_getElem? hindex
      rw [hcontaining]
      dsimp only
      have hallowed : (!makePrivateCopy && !m.maximumPermissions.has permissions) = false := by
        cases hcopy : makePrivateCopy with
        | true => rfl
        | false =>
          have : m.maximumPermissions.has permissions = true := hpermitted hcopy
          simp [this]
      rw [hallowed, (hi.placed m hmem).limit_eq]
      by_cases hlast : limit ≤ m.base + m.size
      · -- the last turn only sees that the cursor is at the end
        rw [min_eq_left hlast]
        have hone : 0 < fuel := by
          have := length_mappingsAfter_lt hmem (by omega : cursor < m.base + m.size) le_rfl
          omega
        obtain ⟨n, rfl⟩ := Nat.exists_eq_succ_of_ne_zero hone.ne'
        exact ⟨_, by rw [scanRange, if_pos le_rfl]; rfl⟩
      · rw [min_eq_right (by omega)]
        refine scanRange_returns hi ?_ fun a ha => h a (by omega)
        have := length_mappingsAfter_lt hmem (by omega : cursor < m.base + m.size) le_rfl
        omega

theorem scanRange_ne_success {ms : List Mapping} {permissions : Permission}
    {makePrivateCopy : Bool} {limit : Nat} : ∀ {fuel cursor : Nat} {flag : Bool}
    {result : ProtectResult},
    scanRange ms permissions makePrivateCopy limit fuel cursor flag = .error result →
    result ≠ .success
  | 0, _, _, _, h => by
    cases h
    simp
  | fuel + 1, cursor, flag, result, h => by
    rw [scanRange] at h
    split at h
    · cases h
    · split at h
      · cases h
        simp
      · split at h
        · cases h
          simp
        · exact scanRange_ne_success h

/-- The loop has seen a mapping for every byte of the range. -/
theorem scanRange_mapped (hi : Inv s) {permissions : Permission} {makePrivateCopy : Bool}
    {limit : Nat} : ∀ {fuel cursor : Nat} {flag result : Bool},
    scanRange s.mappings permissions makePrivateCopy limit fuel cursor flag = .ok result →
    ∀ a, cursor ≤ a → a < limit → ∃ m ∈ s.mappings, Holds m a
  | 0, _, _, _, h => by simp [scanRange] at h
  | fuel + 1, cursor, flag, result, h => by
    intro a hfrom hbelow
    rw [scanRange, if_neg (by omega)] at h
    split at h
    · cases h
    · next m hm =>
      obtain ⟨⟨i, m'⟩, hfound, rfl⟩ := Option.map_eq_some_iff.mp hm
      obtain ⟨hindex, hbase, hlimit⟩ := (mappingHolding_iff hi.sorted Nat.one_pos).mp hfound
      have hmem := List.mem_of_getElem? hindex
      split at h
      · cases h
      · rw [(hi.placed m' hmem).limit_eq] at h
        by_cases ha : a < m'.base + m'.size
        · exact ⟨m', hmem, by omega, ha⟩
        · exact scanRange_mapped hi h a (by omega) hbelow

theorem Protected.protectableOn {address size start limit : Nat} {permissions : Permission}
    {makePrivateCopy flag : Bool} (hi : Inv s)
    (h : Protected s address size permissions makePrivateCopy start limit flag s') :
    s.cells.ProtectableOn address size permissions makePrivateCopy := by
  intro a ha
  have hrange := (onPages_iff h.nonempty h.range).mp ha
  obtain ⟨m, hm, hholds⟩ := scanRange_mapped hi h.scan a hrange.1 hrange.2
  have hover : Overlaps start limit m := ⟨a, hrange.1, hrange.2, hholds.1, hholds.2⟩
  exact ⟨cell m a, cells_of_holds hi hm hholds, ((scanRange_spec hi h.scan).2 m hm hover).2⟩

/-! ## Calls -/

/-- The range has an end that can be rounded up to a page. -/
def Roundable (address size : Nat) : Prop := address + size + (guestPageSize - 1) < 2 ^ 64

theorem exists_pageRange {address size : Nat} (h : Roundable address size) :
    ∃ start limit, pageRange address size = some (start, limit) := by
  unfold Roundable at h
  simp only [guestPageSize] at h
  have h1 : ¬2 ^ 64 - 1 - size < address := by omega
  have h2 : ¬2 ^ 64 - 1 - (guestPageSize - 1) < address + size := by
    simp only [guestPageSize]
    omega
  exact ⟨_, _, by rw [pageRange, if_neg h1, if_neg h2]⟩

theorem Roundable.of_pageRange {address size start limit : Nat}
    (h : pageRange address size = some (start, limit)) : Roundable address size := by
  unfold pageRange at h
  split at h
  · cases h
  · split at h
    · cases h
    · unfold Roundable
      simp only [guestPageSize] at *
      omega

/-- The parts of a space that have nothing to do with its mappings. -/
structure SameHost (s s' : AddressSpace) : Prop where
  files : s'.files = s.files
  fileCount : s'.fileCount = s.fileCount
  transforms : s'.transforms = s.transforms
  transformCount : s'.transformCount = s.transformCount

/-- `protect` of a range that is not empty : it succeeds exactly if the range can be rounded and
every page of it can be changed, and then changes these pages. -/
theorem protect_cases (hi : Inv s) {address size : Nat} (hsize : 0 < size)
    (permissions : Permission) (makePrivateCopy : Bool) :
    (∃ s', protect address size permissions makePrivateCopy s = (.ok .success, s') ∧
      Roundable address size ∧ s.cells.ProtectableOn address size permissions makePrivateCopy ∧
      s'.cells = s.cells.protect address size permissions makePrivateCopy ∧ SameHost s s' ∧ Inv s') ∨
    (∃ result, result ≠ .success ∧
      protect address size permissions makePrivateCopy s = (.ok result, s) ∧
      ¬(Roundable address size ∧
        s.cells.ProtectableOn address size permissions makePrivateCopy)) := by
  have hget : (Computation.get : Access AddressSpace) s = (.ok s, s) := rfl
  unfold protect
  rw [if_neg hsize.ne']
  cases hrange : pageRange address size with
  | none =>
    refine .inr ⟨.invalidArgument, by simp, rfl, fun h => ?_⟩
    obtain ⟨start, limit, hsome⟩ := exists_pageRange h.1
    rw [hrange] at hsome
    cases hsome
  | some range =>
    obtain ⟨start, limit⟩ := range
    dsimp only
    rw [bind_ok hget]
    cases hscan : scanRange s.mappings permissions makePrivateCopy limit (s.mappings.length + 1)
        start permissions.execute with
    | error result =>
      refine .inr ⟨result, scanRange_ne_success hscan, rfl, fun h => ?_⟩
      have hok : ∃ flag, scanRange s.mappings permissions makePrivateCopy limit
          (s.mappings.length + 1) start permissions.execute = .ok flag :=
        scanRange_returns hi (Nat.lt_succ_of_le (List.length_filter_le _ _))
          fun a ha hlt => h.2 a ((onPages_iff hsize hrange).mpr ⟨ha, hlt⟩)
      obtain ⟨flag, hok⟩ := hok
      rw [hscan] at hok
      cases hok
    | ok flag =>
      have h : Protected s address size permissions makePrivateCopy start limit flag _ :=
        ⟨hrange, hsize, rfl, hscan⟩
      exact .inl ⟨_, rfl, .of_pageRange hrange, h.protectableOn hi, h.cells_eq hi,
        ⟨rfl, rfl, rfl, rfl⟩, h.inv hi⟩

/-- What `protect` does in a space : it changes the pages that meet the range, and these only, if
every one of them can be changed, and it changes nothing otherwise. -/
structure ProtectsPages (s : AddressSpace) (permissions : Permission) (makePrivateCopy : Bool)
    (address size : Nat) (result : Except AccessError ProtectResult) (s' : AddressSpace) : Prop where
  returns : ∃ r, result = .ok r
  success : result = .ok .success → s.cells.ProtectableOn address size permissions makePrivateCopy ∧
    s'.cells = s.cells.protect address size permissions makePrivateCopy ∧ SameHost s s'
  otherwise : result ≠ .ok .success → s' = s

/-- What `deallocate` does in a space. -/
structure DeallocatesPages (s : AddressSpace) (address size : Nat)
    (result : Except AccessError DeallocateResult) (s' : AddressSpace) : Prop where
  returns : ∃ r, result = .ok r
  success : result = .ok .success → s'.cells = s.cells.deallocate address size ∧ SameHost s s'
  otherwise : result ≠ .ok .success → s' = s

theorem not_onPages_zero {address a : Nat} : ¬OnPages address 0 a := by
  rintro ⟨b, h1, h2, -⟩
  omega

theorem Cells.protect_zero (memory : Cells) (address : Nat) (permissions : Permission)
    (makePrivateCopy : Bool) : memory.protect address 0 permissions makePrivateCopy = memory := by
  funext a
  rw [Cells.protect, if_neg not_onPages_zero]

theorem Cells.deallocate_zero (memory : Cells) (address : Nat) :
    memory.deallocate address 0 = memory := by
  funext a
  rw [Cells.deallocate, if_neg not_onPages_zero]

/-- `protect` succeeds exactly if the range is empty, or can be rounded and changed. -/
theorem protect_success_iff (hi : Inv s) (address size : Nat) (permissions : Permission)
    (makePrivateCopy : Bool) :
    (protect address size permissions makePrivateCopy s).1 = .ok .success ↔
      size = 0 ∨ (Roundable address size ∧
        s.cells.ProtectableOn address size permissions makePrivateCopy) := by
  rcases Nat.eq_zero_or_pos size with rfl | hsize
  · exact ⟨fun _ => .inl rfl, fun _ => rfl⟩
  · rcases protect_cases hi hsize permissions makePrivateCopy with
      ⟨s', hrun, hround, hable, -⟩ | ⟨result, hne, hrun, hnot⟩
    · rw [hrun]
      exact ⟨fun _ => .inr ⟨hround, hable⟩, fun _ => rfl⟩
    · rw [hrun]
      constructor
      · intro h
        exact absurd (Except.ok.inj h) hne
      · rintro (h | h)
        · omega
        · exact absurd h hnot

theorem protect_pages (hi : Inv s) (address size : Nat) (permissions : Permission)
    (makePrivateCopy : Bool) :
    ProtectsPages s permissions makePrivateCopy address size
      (protect address size permissions makePrivateCopy s).1
      (protect address size permissions makePrivateCopy s).2 := by
  rcases Nat.eq_zero_or_pos size with rfl | hsize
  · have hrun : protect address 0 permissions makePrivateCopy s = (.ok .success, s) := rfl
    rw [hrun]
    refine ⟨⟨_, rfl⟩, fun _ => ⟨fun a ha => absurd ha not_onPages_zero, ?_, ⟨rfl, rfl, rfl, rfl⟩⟩,
      fun h => absurd rfl h⟩
    exact (Cells.protect_zero _ _ _ _).symm
  · rcases protect_cases hi hsize permissions makePrivateCopy with
      ⟨s', hrun, -, hable, hcells, hhost, -⟩ | ⟨result, hne, hrun, -⟩
    · rw [hrun]
      exact ⟨⟨_, rfl⟩, fun _ => ⟨hable, hcells, hhost⟩, fun h => absurd rfl h⟩
    · rw [hrun]
      exact ⟨⟨_, rfl⟩, fun h => absurd (Except.ok.inj h) hne, fun _ => rfl⟩

theorem deallocate_pages (hi : Inv s) (address size : Nat) :
    DeallocatesPages s address size (deallocate address size s).1 (deallocate address size s).2 := by
  have hspec := deallocate_spec hi address size
  unfold Post at hspec
  rcases hrun : deallocate address size s with ⟨e | r, s'⟩
  · rw [hrun] at hspec
    exact hspec.elim
  · rw [hrun] at hspec
    refine ⟨⟨r, rfl⟩, fun h => ?_, fun h => ?_⟩
    · obtain rfl := Except.ok.inj h
      rcases hspec with ⟨rfl, hzero⟩ | ⟨-, start, limit, flag, h⟩
      · obtain rfl := hzero rfl
        exact ⟨(Cells.deallocate_zero _ _).symm, rfl, rfl, rfl, rfl⟩
      · refine ⟨h.cells_eq hi, ?_⟩
        rw [h.space]
        exact ⟨rfl, rfl, rfl, rfl⟩
    · rcases hspec with ⟨rfl, -⟩ | ⟨rfl, -⟩
      · rfl
      · exact absurd rfl h

/-- What `protect` leaves when it succeeds. -/
theorem protect_cells (hi : Inv s) {address size : Nat} {permissions : Permission}
    {makePrivateCopy : Bool}
    (h : (protect address size permissions makePrivateCopy s).1 = .ok .success) :
    (protect address size permissions makePrivateCopy s).2.cells =
      s.cells.protect address size permissions makePrivateCopy :=
  ((protect_pages hi address size permissions makePrivateCopy).success h).2.1

theorem protect_inv (hi : Inv s) (address size : Nat) (permissions : Permission)
    (makePrivateCopy : Bool) : Inv (protect address size permissions makePrivateCopy s).2 := by
  rcases Nat.eq_zero_or_pos size with rfl | hsize
  · exact hi
  · rcases protect_cases hi hsize permissions makePrivateCopy with
      ⟨s', hrun, -, -, -, -, hi'⟩ | ⟨result, -, hrun, -⟩
    · rw [hrun]
      exact hi'
    · rw [hrun]
      exact hi

/-- Two ranges side by side can be protected one after the other exactly if the whole can be. -/
theorem protect_append_success (hi : Inv s) (address first second : Nat) (permissions : Permission)
    (makePrivateCopy : Bool) :
    ((protect address first permissions makePrivateCopy s).1 = .ok .success ∧
        (protect (address + first) second permissions makePrivateCopy
          (protect address first permissions makePrivateCopy s).2).1 = .ok .success) ↔
      (protect address (first + second) permissions makePrivateCopy s).1 = .ok .success := by
  have hi1 := protect_inv hi address first permissions makePrivateCopy
  have hsecond (h : (protect address first permissions makePrivateCopy s).1 = .ok .success) :
      (protect (address + first) second permissions makePrivateCopy
          (protect address first permissions makePrivateCopy s).2).1 = .ok .success ↔
        second = 0 ∨ (Roundable (address + first) second ∧
          (s.cells.protect address first permissions makePrivateCopy).ProtectableOn
            (address + first) second permissions makePrivateCopy) := by
    rw [protect_success_iff hi1, protect_cells hi h]
  rw [protect_success_iff hi address (first + second)]
  constructor
  · rintro ⟨h1, h2⟩
    have h2 := (hsecond h1).mp h2
    rcases (protect_success_iff hi _ _ _ _).mp h1 with rfl | ⟨hround, hable⟩
    · rw [Cells.protect_zero] at h2
      simpa using h2
    · rcases h2 with rfl | ⟨hround2, hable2⟩
      · exact .inr ⟨hround, hable⟩
      · refine .inr ⟨?_, Cells.protectableOn_append.mpr ⟨hable, hable2⟩⟩
        unfold Roundable at *
        omega
  · intro h
    have hparts : (first = 0 ∨ (Roundable address first ∧
          s.cells.ProtectableOn address first permissions makePrivateCopy)) ∧
        (second = 0 ∨ (Roundable (address + first) second ∧
          (s.cells.protect address first permissions makePrivateCopy).ProtectableOn
            (address + first) second permissions makePrivateCopy)) := by
      rcases h with hzero | ⟨hround, hable⟩
      · exact ⟨.inl (by omega), .inl (by omega)⟩
      · obtain ⟨h1, h2⟩ := Cells.protectableOn_append.mp hable
        unfold Roundable at *
        exact ⟨.inr ⟨by omega, h1⟩, .inr ⟨by omega, h2⟩⟩
    have h1 := (protect_success_iff hi _ _ _ _).mpr hparts.1
    exact ⟨h1, (hsecond h1).mpr hparts.2⟩

/-- `protect` and `deallocate` act on the pages that meet their range. -/
structure ActsOnPages (s : AddressSpace) : Prop where
  protect : ∀ (address size : BitVec 64) (permissions : Permission) (makePrivateCopy : Bool),
    ProtectsPages s permissions makePrivateCopy address.toNat size.toNat
      (protect address.toNat size.toNat permissions makePrivateCopy s).1
      (protect address.toNat size.toNat permissions makePrivateCopy s).2
  deallocate : ∀ address size : BitVec 64,
    DeallocatesPages s address.toNat size.toNat (deallocate address.toNat size.toNat s).1
      (deallocate address.toNat size.toNat s).2
  /-- The parts can be protected exactly if the whole can be. -/
  parts : ∀ (address first second : Nat) (permissions : Permission) (makePrivateCopy : Bool),
    ((AddressSpace.protect address first permissions makePrivateCopy s).1 = .ok .success ∧
        (AddressSpace.protect (address + first) second permissions makePrivateCopy
          (AddressSpace.protect address first permissions makePrivateCopy s).2).1 =
            .ok .success) ↔
      (AddressSpace.protect address (first + second) permissions makePrivateCopy s).1 = .ok .success
  /-- The parts one after the other leave the memory that the whole leaves. -/
  together : ∀ (address first second : Nat) (permissions : Permission) (makePrivateCopy : Bool),
    (AddressSpace.protect address (first + second) permissions makePrivateCopy s).1 = .ok .success →
    (AddressSpace.protect (address + first) second permissions makePrivateCopy
        (AddressSpace.protect address first permissions makePrivateCopy s).2).2.cells =
      (AddressSpace.protect address (first + second) permissions makePrivateCopy s).2.cells

/-- In every space that calls lead to, `protect` and `deallocate` act on pages. -/
theorem actsOnPages_afterAll (calls : List Call) : ActsOnPages (afterAll {} calls) := by
  have hi : Inv (afterAll {} calls) := inv_afterAll calls .initial
  refine ⟨fun address size => protect_pages hi _ _, fun address size => deallocate_pages hi _ _,
    protect_append_success hi, fun address first second permissions makePrivateCopy h => ?_⟩
  obtain ⟨h1, h2⟩ := (protect_append_success hi address first second permissions
    makePrivateCopy).mpr h
  rw [protect_cells hi h, protect_cells (protect_inv hi _ _ _ _) h2, protect_cells hi h1,
    Cells.protect_protect]

/-- One page, with nothing after it. -/
def onePage : List Call :=
  [.mapAnonymous 0x1000 0x1000 { read := true } { read := true } "page" none]

/-- The page is protected and the hole after it is not; the whole is refused. -/
theorem not_together_onePage :
    (protect 0x2000 0x1000 .none false (protect 0x1000 0x1000 .none false
        (afterAll {} onePage)).2).2.cells ≠
      (protect 0x1000 0x2000 .none false (afterAll {} onePage)).2.cells := by
  intro h
  have hpage := congrFun h 0x1000
  revert hpage
  decide +kernel

end AddressSpace

end Rosa
