import Rosa.Guest.LookupCache

/-!
# Direct memory views

The 8-bit loads and stores of `dbt/RuntimeHelpers.cpp`. While a block runs on its own
self edge the helpers keep one view for reading and one for writing : the first access
asks the address space for the view of its mapping, and later accesses that fall into the
view go straight to the host bytes, with no lookup and no permission check.

`executeRepeated` makes the context, so the views live for one batch. Inside a batch guest
memory is only loaded and stored, so a mapping keeps its place and its size, and the host
pointer of a view is the index of its mapping. `Valid` says what a view promises, and
`Direct` which mappings have one; with these each helper is matched with the accessor it
stands for.
-/

namespace Rosa

open Rosa.Computation

/-- `DirectGuestMemoryCache`. The pointer is the index of the mapping it points into. -/
structure DirectGuestMemoryCache where
  base : Nat := 0
  size : Nat := 0
  bytes : Option Nat := none
  attempted : Bool := false

/-- The host byte of an address in a view : the mapping and the offset. -/
def DirectGuestMemoryCache.hit (cache : DirectGuestMemoryCache) (address : Nat) :
    Option (Nat × Nat) :=
  cache.bytes.bind fun i =>
    if cache.base ≤ address ∧ address - cache.base < cache.size then
      some (i, address - cache.base)
    else none

/-- The fields of `GuestExecutionContext` that loads and stores use. -/
structure GuestExecutionContext where
  addressSpace : AddressSpace
  stopRepeating : Bool := false
  directMemoryEnabled : Bool := false
  directRead : DirectGuestMemoryCache := {}
  directWrite : DirectGuestMemoryCache := {}

/-- A helper of the generated code. -/
abbrev Helper (α : Type) := Computation GuestExecutionContext AccessError α

namespace GuestExecutionContext

/-- The context `executeRepeated` makes. -/
def ofRepeated (s : AddressSpace) : GuestExecutionContext :=
  { addressSpace := s, directMemoryEnabled := true }

/-- An accessor of the address space, called by a helper. -/
def access {α : Type} (x : Access α) : Helper α := fun c =>
  ((x c.addressSpace).1, { c with addressSpace := (x c.addressSpace).2 })

/-- What a view is used for. -/
inductive Direction
  | read | write
  deriving DecidableEq, Repr

/-- The permission a view is asked for with. -/
def Direction.permission : Direction → Permission
  | read => { read := true }
  | write => { write := true }

/-- The view of a direction. -/
def cache : Direction → GuestExecutionContext → DirectGuestMemoryCache
  | .read => directRead
  | .write => directWrite

/-- The context with another view. -/
def setCache (d : Direction) (cache : DirectGuestMemoryCache) (c : GuestExecutionContext) :
    GuestExecutionContext :=
  match d with
  | .read => { c with directRead := cache }
  | .write => { c with directWrite := cache }

/-- `directGuestRead` and `directGuestWrite` : the host byte of an address, if it has one. -/
def directGuestAccess (d : Direction) (address : Nat) : Helper (Option (Nat × Nat)) := do
  let c ← get
  if !c.directMemoryEnabled then pure none
  else
    match (c.cache d).hit address with
    | some byte => pure (some byte)
    | none =>
      if (c.cache d).attempted then pure none
      else
        modify (setCache d { c.cache d with attempted := true })
        match ← access (AddressSpace.directMemoryView address d.permission) with
        | none => pure none
        | some (i, m) =>
          modify (setCache d ⟨m.base, m.bytes.size, some i, true⟩)
          pure (some (i, address - m.base))

/-- `directGuestRead`. -/
def directGuestRead : Nat → Helper (Option (Nat × Nat)) := directGuestAccess .read

/-- `directGuestWrite`. -/
def directGuestWrite : Nat → Helper (Option (Nat × Nat)) := directGuestAccess .write

/-- The host bytes at a position : one byte. -/
def hostByte (s : AddressSpace) (i offset : Nat) : List Byte :=
  match s.mappings[i]? with
  | some m => [m.bytes.get offset]
  | none => []

/-- Write a host byte. -/
def setHostByte (i offset : Nat) (value : Byte) (s : AddressSpace) : AddressSpace :=
  match s.mappings[i]? with
  | some m =>
    { s with
      mappings := s.mappings.set i
        { m with bytes := ⟨m.bytes.size, overwrite m.bytes.get offset [value]⟩ } }
  | none => s

/-- `loadGuest16`, `loadGuest32` and `loadGuest64`, and the slow path of `loadGuest8`. -/
def loadGuest (address size : Nat) : Helper (List Byte) :=
  access (AddressSpace.readWord address size)

/-- `storeGuest16`, `storeGuest32` and `storeGuest64`, and the slow path of `storeGuest8`. -/
def storeGuest (address : Nat) (data : List Byte) : Helper (List Byte) := do
  let c ← get
  let executableVersion := c.addressSpace.executableVersion
  access (AddressSpace.writeBytes address data)
  modify fun c =>
    { c with
      stopRepeating := c.stopRepeating || c.addressSpace.executableVersion != executableVersion }
  pure []

/-- `loadGuest8`. -/
def loadGuest8 (address : Nat) : Helper (List Byte) := do
  match ← directGuestRead address with
  | some (i, offset) =>
    let c ← get
    pure (hostByte c.addressSpace i offset)
  | none => loadGuest address 1

/-- `storeGuest8`. -/
def storeGuest8 (address : Nat) (value : Byte) : Helper (List Byte) := do
  match ← directGuestWrite address with
  | some (i, offset) =>
    modify fun c => { c with addressSpace := setHostByte i offset value c.addressSpace }
    pure []
  | none => storeGuest address [value]

end GuestExecutionContext

open GuestExecutionContext

/-- An access to guest memory that a block makes. -/
inductive GuestAccess
  | load8 (address : BitVec 64)
  | store8 (address : BitVec 64) (value : Byte)
  | load (address : BitVec 64) (size : Nat)
  | store (address : BitVec 64) (data : List Byte)

namespace GuestAccess

/-- The access as the helpers make it. -/
def run : GuestAccess → Helper (List Byte)
  | load8 address => loadGuest8 address.toNat
  | store8 address value => storeGuest8 address.toNat value
  | load address size => loadGuest address.toNat size
  | store address data => storeGuest address.toNat data

/-- The access through the address space alone. -/
def runSlow : GuestAccess → Helper (List Byte)
  | load8 address => loadGuest address.toNat 1
  | store8 address value => storeGuest address.toNat [value]
  | load address size => loadGuest address.toNat size
  | store address data => storeGuest address.toNat data

end GuestAccess

/-- Accesses in order, with what each returned or threw. A block ends at the first fault,
so its accesses are a prefix of these. -/
def runAccesses (run : GuestAccess → Helper (List Byte)) :
    List GuestAccess → GuestExecutionContext →
      List (Except AccessError (List Byte)) × GuestExecutionContext
  | [], c => ([], c)
  | a :: accesses, c =>
    let first := run a c
    let rest := runAccesses run accesses first.2
    (first.1 :: rest.1, rest.2)

/-! ## What the slow path does to a mapping that has a view -/

/-- The mapping can be handed out as a view. -/
structure Mapping.Direct (m : Mapping) (required : Permission) : Prop where
  file : m.fileBytes = none
  dense : m.readableBytes.size = 0
  backed : m.bytes.size = m.size
  permitted : m.permissions.has required = true
  plain : required.write = true → m.permissions.execute = false

namespace AddressSpace

variable {s : AddressSpace} {address i : Nat} {m : Mapping} {required : Permission}

/-- The mapping at `i` is direct and holds the address. -/
structure DirectAt (s : AddressSpace) (required : Permission) (address i : Nat) (m : Mapping) :
    Prop where
  index : s.mappings[i]? = some m
  direct : m.Direct required
  base : m.base ≤ address
  limit : address < m.base + m.size

theorem DirectAt.findResult (h : DirectAt s required address i m) (hs : Findable s) :
    findResult s.mappings address 1 required = .ok (i, m) := by
  have hm : mappingHolding s.mappings address 1 = some (i, m) :=
    (mappingHolding_iff hs.sorted Nat.one_pos).mpr ⟨h.index, h.base, h.limit⟩
  simp [AddressSpace.findResult, hm, h.direct.permitted]

theorem DirectAt.readWord (h : DirectAt s { read := true } address i m) (hs : Findable s) :
    ∃ s', readWord address 1 s = (.ok [m.bytes.get (address - m.base)], s') ∧
      SameSpace s s' := by
  obtain ⟨s', hfind, hsame⟩ := hs.find_eq address 1 { read := true }
  rw [h.findResult hs] at hfind
  refine ⟨s', ?_, hsame⟩
  have hbase := h.base
  have hlimit := h.limit
  unfold AddressSpace.readWord
  rw [bind_ok hfind]
  dsimp only
  rw [if_pos ⟨h.direct.dense, by omega⟩]
  unfold loadChunk
  rw [h.direct.file]
  have hcheck : checkBacking (address - m.base + 1) m.bytes.size s' = (.ok (), s') := by
    have hfits : decide (m.bytes.size < address - m.base + 1) = false := by
      rw [h.direct.backed]
      simp only [decide_eq_false_iff_not]
      omega
    rw [checkBacking, hfits]
    rfl
  dsimp only
  rw [bind_ok hcheck]
  rfl

theorem DirectAt.writeBytes (h : DirectAt s { write := true } address i m) (hs : Findable s)
    (value : Byte) :
    ∃ s', writeBytes address [value] s = (.ok (), s') ∧
      SameSpace (storeBytes i m (address - m.base) [value] s) s' := by
  obtain ⟨s₁, hfind, hsame⟩ := hs.find_eq address 1 { write := true }
  rw [h.findResult hs] at hfind
  refine ⟨storeBytes i m (address - m.base) [value] s₁, ?_, storeBytes_same hsame h.index⟩
  have hbase := h.base
  have hlimit := h.limit
  unfold AddressSpace.writeBytes
  rw [if_neg (by simp), bind_ok hfind]
  dsimp only
  rw [if_pos (by simp; omega)]
  have hpages : materializeFileBytes m (address - m.base) 1 s₁ = (.ok (), s₁) := by
    unfold materializeFileBytes
    rw [h.direct.file]
    rfl
  have hcheck : checkBacking (address - m.base + 1) m.bytes.size s₁ = (.ok (), s₁) := by
    have hfits : decide (m.bytes.size < address - m.base + 1) = false := by
      rw [h.direct.backed]
      simp only [decide_eq_false_iff_not]
      omega
    rw [checkBacking, hfits]
    rfl
  have hstore : storeChunk i m (address - m.base) [value] s₁ =
      (.ok (), storeBytes i m (address - m.base) [value] s₁) := by
    have hget : (Computation.get : Access AddressSpace) s₁ = (.ok s₁, s₁) := rfl
    unfold storeChunk
    rw [bind_ok hget, h.direct.file]
    exact (bind_ok hcheck).trans rfl
  rw [List.length_singleton, bind_ok hpages, bind_ok hstore, h.direct.plain rfl]
  rfl

end AddressSpace

/-! ## A view keeps what it promises -/

section

variable {s s' : AddressSpace} {c d : GuestExecutionContext}

/-- The view is one that `directMemoryView` would hand out now. -/
def DirectGuestMemoryCache.Valid (cache : DirectGuestMemoryCache) (required : Permission)
    (s : AddressSpace) : Prop :=
  ∀ i, cache.bytes = some i → ∃ m, s.mappings[i]? = some m ∧ m.Direct required ∧
    m.base = cache.base ∧ m.size = cache.size

theorem Mapping.SameShape.direct {a b : Mapping} {required : Permission} (h : a.SameShape b)
    (ha : a.Direct required) : b.Direct required where
  file := h.fileBytes.trans ha.file
  dense := h.readableBytes.trans ha.dense
  backed := by rw [h.bytes, h.size]; exact ha.backed
  permitted := h.permissions ▸ ha.permitted
  plain := h.permissions ▸ ha.plain

theorem DirectGuestMemoryCache.Valid.of_sameShape {cache : DirectGuestMemoryCache}
    {required : Permission} (h : cache.Valid required s)
    (hs : List.Forall₂ Mapping.SameShape s.mappings s'.mappings) : cache.Valid required s' := by
  intro i hi
  obtain ⟨m, hm, hdirect, hbase, hsize⟩ := h i hi
  obtain ⟨hlt, rfl⟩ := List.getElem?_eq_some_iff.mp hm
  have hlt' : i < s'.mappings.length := hs.length_eq ▸ hlt
  have hshape : s.mappings[i].SameShape s'.mappings[i] := hs.get hlt hlt'
  exact ⟨s'.mappings[i], List.getElem?_eq_getElem hlt', hshape.direct hdirect,
    hshape.base.trans hbase, hshape.size.trans hsize⟩

/-- A byte of a valid view. -/
theorem DirectGuestMemoryCache.Valid.hit {cache : DirectGuestMemoryCache} {required : Permission}
    (h : cache.Valid required s) {address i offset : Nat}
    (hhit : cache.hit address = some (i, offset)) :
    ∃ m, AddressSpace.DirectAt s required address i m ∧ offset = address - m.base := by
  unfold DirectGuestMemoryCache.hit at hhit
  obtain ⟨j, hj, hhit⟩ := Option.bind_eq_some_iff.mp hhit
  obtain ⟨m, hm, hdirect, hbase, hsize⟩ := h j hj
  split at hhit
  · next hin =>
    cases hhit
    exact ⟨m, ⟨hm, hdirect, by omega, by omega⟩, by rw [hbase]⟩
  · cases hhit

/-- The context of the helpers and one that uses the address space alone. -/
structure Matches (c d : GuestExecutionContext) : Prop where
  inv : c.addressSpace.Inv
  same : AddressSpace.SameSpace c.addressSpace d.addressSpace
  stop : c.stopRepeating = d.stopRepeating
  read : c.directRead.Valid Direction.read.permission c.addressSpace
  write : c.directWrite.Valid Direction.write.permission c.addressSpace

theorem Matches.cache (h : Matches c d) (direction : Direction) :
    (c.cache direction).Valid direction.permission c.addressSpace := by
  cases direction with
  | read => exact h.read
  | write => exact h.write

/-- The space changed in its contents, the same way on both sides. -/
theorem Matches.of_space (h : Matches c d) {t : AddressSpace} (hi : s.Inv)
    (hs : List.Forall₂ Mapping.SameShape c.addressSpace.mappings s.mappings)
    (hst : AddressSpace.SameSpace s t) :
    Matches { c with addressSpace := s } { d with addressSpace := t } where
  inv := hi
  same := hst
  stop := h.stop
  read := h.read.of_sameShape hs
  write := h.write.of_sameShape hs

theorem Matches.setCache (h : Matches c d) (direction : Direction) {cache : DirectGuestMemoryCache}
    (hv : cache.Valid direction.permission c.addressSpace) :
    Matches (c.setCache direction cache) d := by
  cases direction with
  | read => exact ⟨h.inv, h.same, h.stop, hv, h.write⟩
  | write => exact ⟨h.inv, h.same, h.stop, h.read, hv⟩

/-! ## The accesses -/

theorem access_eq {α : Type} {x : Access α} {r : Except AccessError α}
    (hx : x c.addressSpace = (r, s')) :
    GuestExecutionContext.access x c = (r, { c with addressSpace := s' }) := by
  show ((x c.addressSpace).1, { c with addressSpace := (x c.addressSpace).2 }) = _
  rw [hx]

/-- An accessor that only changes contents and does not see the lookup cache. -/
theorem Matches.access {α : Type} (h : Matches c d) {x : Access α}
    (hboth : Both x x c.addressSpace d.addressSpace (fun _ => AddressSpace.SameSpace)
      AddressSpace.SameSpace)
    (hshape : Post x c.addressSpace
      (fun _ s' => s'.Inv ∧ List.Forall₂ Mapping.SameShape c.addressSpace.mappings s'.mappings)
      fun _ s' => s'.Inv ∧ List.Forall₂ Mapping.SameShape c.addressSpace.mappings s'.mappings) :
    Both (access x) (access x) c d (fun _ => Matches) Matches := by
  unfold Post at hshape
  obtain ⟨a, s', t', hx, hy, hst⟩ | ⟨e, s', t', hx, hy, hst⟩ := hboth.cases
  · rw [hx] at hshape
    exact .ok (access_eq hx) (access_eq hy) (h.of_space hshape.1 hshape.2 hst)
  · rw [hx] at hshape
    exact .error (access_eq hx) (access_eq hy) (h.of_space hshape.1 hshape.2 hst)

theorem loadGuest_both (h : Matches c d) (address size : Nat) :
    Both (loadGuest address size) (loadGuest address size) c d (fun _ => Matches) Matches := by
  refine h.access (AddressSpace.readWord_both h.same address size) ?_
  exact Post.mono (AddressSpace.readWord_spec h.inv address size)
    (fun _ _ ht => ⟨ht.1.inv h.inv, ht.1.sameShape.mappings⟩)
    fun _ _ ht => ⟨ht.1.inv h.inv, ht.1.sameShape.mappings⟩

theorem storeGuest_both (h : Matches c d) (address : Nat) (data : List Byte) :
    Both (storeGuest address data) (storeGuest address data) c d (fun _ => Matches) Matches := by
  unfold storeGuest
  refine .get_bind ?_
  dsimp only
  rw [h.same.executableVersion]
  refine .bind (h.access (AddressSpace.writeBytes_both h.same address data) ?_)
    fun _ c' d' h' => ?_
  · refine Post.mono (AddressSpace.writeBytes_spec h.inv address data) ?_ ?_
    · rintro _ _ ⟨flag, s₁, ht, rfl⟩
      exact ⟨AddressSpace.bumped_inv (ht.inv h.inv), ht.sameShape.mappings⟩
    · rintro _ _ ⟨⟨flag, s₁, ht, rfl⟩, -⟩
      exact ⟨AddressSpace.bumped_inv (ht.inv h.inv), ht.sameShape.mappings⟩
  · refine .bind (R := fun _ => Matches) (.modify ?_) fun _ _ _ h'' => .pure h''
    refine ⟨h'.inv, h'.same, ?_, h'.read, h'.write⟩
    simp only [h'.stop, h'.same.executableVersion]

/-- What a helper gets from `directGuestRead` and `directGuestWrite`. -/
inductive DirectResult (direction : Direction) (address : Nat) (c d : GuestExecutionContext) :
    Except AccessError (Option (Nat × Nat)) × GuestExecutionContext → Prop
  | slow {c' : GuestExecutionContext} (h : Matches c' d) : DirectResult direction address c d (.ok none, c')
  | byte {c' : GuestExecutionContext} {i : Nat} {m : Mapping} (h : Matches c' d)
      (hm : AddressSpace.DirectAt c'.addressSpace direction.permission address i m) :
      DirectResult direction address c d (.ok (some (i, address - m.base)), c')
  | error {c' : GuestExecutionContext} {e : AccessError} (h : Matches c' d)
      (he : AddressSpace.findResult d.addressSpace.mappings address 1 direction.permission = .error e) :
      DirectResult direction address c d (.error e, c')

theorem directMemoryView_result (hs : s.Findable) (address : Nat) (required : Permission) :
    ∃ s', AddressSpace.SameSpace s s' ∧
      ((∃ e, AddressSpace.findResult s.mappings address 1 required = .error e ∧
          AddressSpace.directMemoryView address required s = (.error e, s')) ∨
        AddressSpace.directMemoryView address required s = (.ok none, s') ∨
        ∃ i m, AddressSpace.DirectAt s' required address i m ∧
          AddressSpace.directMemoryView address required s = (.ok (some (i, m)), s')) := by
  obtain ⟨s', hfind, hsame⟩ := hs.find_eq address 1 required
  refine ⟨s', hsame, ?_⟩
  unfold AddressSpace.directMemoryView
  cases hr : AddressSpace.findResult s.mappings address 1 required with
  | error e =>
    rw [hr] at hfind
    exact .inl ⟨e, rfl, bind_error hfind⟩
  | ok found =>
    obtain ⟨i, m⟩ := found
    rw [hr] at hfind
    rw [hsame.mappings] at hr
    have hf := AddressSpace.findResult_ok hsame.right Nat.one_pos hr
    rw [bind_ok hfind]
    dsimp only
    split
    · exact .inr (.inl rfl)
    · next hdirect =>
      simp only [Bool.or_eq_true, Bool.and_eq_true, bne_iff_ne, not_or, ne_eq, not_not,
        Bool.not_eq_true, Option.isSome_eq_false_iff, Option.isNone_iff_eq_none, not_and] at hdirect
      obtain ⟨⟨⟨hfile, hdense⟩, hbacked⟩, hplain⟩ := hdirect
      refine .inr (.inr ⟨i, m, ⟨hf.index, ⟨hfile, hdense, hbacked, hf.permitted, ?_⟩, hf.base,
        hf.limit⟩, rfl⟩)
      intro hw
      simpa using hplain hw

theorem directGuestAccess_result (h : Matches c d) (direction : Direction) (address : Nat) :
    DirectResult direction address c d (directGuestAccess direction address c) := by
  have hget : (Computation.get : Helper GuestExecutionContext) c = (.ok c, c) := rfl
  unfold directGuestAccess
  rw [bind_ok hget]
  split
  · exact .slow h
  · cases hhit : (c.cache direction).hit address with
    | some byte =>
      obtain ⟨i, offset⟩ := byte
      obtain ⟨m, hm, rfl⟩ := (h.cache direction).hit hhit
      exact .byte h hm
    | none =>
      dsimp only
      split
      · exact .slow h
      · -- The first access that misses asks for the view.
        have h₁ : Matches (c.setCache direction { c.cache direction with attempted := true }) d :=
          h.setCache direction (h.cache direction)
        have hmodify : (modify (setCache direction { c.cache direction with attempted := true }) :
            Helper Unit) c =
            (.ok (), c.setCache direction { c.cache direction with attempted := true }) := rfl
        rw [bind_ok hmodify]
        generalize c.setCache direction { c.cache direction with attempted := true } = c₁ at h₁
        obtain ⟨s', hsame, hview⟩ :=
          directMemoryView_result h₁.inv.findable address direction.permission
        have h₂ : Matches { c₁ with addressSpace := s' } d :=
          h₁.of_space (hsame.inv h₁.inv)
            (hsame.mappings ▸ List.forall₂_same.mpr fun m _ => .refl m) (hsame.symm.trans h₁.same)
        obtain ⟨e, he, hv⟩ | hv | ⟨i, m, hm, hv⟩ := hview
        · rw [bind_error (access_eq hv)]
          rw [h₁.same.mappings] at he
          exact .error h₂ he
        · rw [bind_ok (access_eq hv)]
          exact .slow h₂
        · rw [bind_ok (access_eq hv)]
          refine .byte (h₂.setCache direction ?_) ?_
          · rintro j hj
            cases hj
            exact ⟨m, hm.index, hm.direct, rfl, hm.direct.backed.symm⟩
          · cases direction <;> exact hm

/-- An 8-bit load. -/
theorem loadGuest8_both (h : Matches c d) (address : Nat) :
    Both (loadGuest8 address) (loadGuest address 1) c d (fun _ => Matches) Matches := by
  have hresult := directGuestAccess_result h .read address
  generalize hrun : directGuestAccess .read address c = result at hresult
  cases hresult with
  | slow h' =>
    have heq : loadGuest8 address c = loadGuest address 1 _ := bind_ok hrun
    have hslow := loadGuest_both h' address 1
    simp only [Both] at hslow ⊢
    rw [heq]
    exact hslow
  | @byte c' i m h' hm =>
    have hd : AddressSpace.DirectAt d.addressSpace { read := true } address i m :=
      ⟨h'.same.mappings ▸ hm.index, hm.direct, hm.base, hm.limit⟩
    obtain ⟨t', hread, hsame⟩ := hd.readWord h'.same.right
    have heq : loadGuest8 address c = (.ok [m.bytes.get (address - m.base)], c') := by
      refine (bind_ok hrun).trans ?_
      show (Except.ok (hostByte c'.addressSpace i (address - m.base)), c') = _
      rw [hostByte, hm.index]
    refine .ok heq (access_eq hread) ⟨h'.inv, h'.same.trans hsame, h'.stop, h'.read, h'.write⟩
  | @error c' e h' he =>
    obtain ⟨t', hfind, hsame⟩ := h'.same.right.find_eq address 1 Direction.read.permission
    rw [he] at hfind
    have hread : AddressSpace.readWord address 1 d.addressSpace = (.error e, t') := bind_error hfind
    refine .error (bind_error hrun) (access_eq hread)
      ⟨h'.inv, h'.same.trans hsame, h'.stop, h'.read, h'.write⟩

/-- An 8-bit store. -/
theorem storeGuest8_both (h : Matches c d) (address : Nat) (value : Byte) :
    Both (storeGuest8 address value) (storeGuest address [value]) c d (fun _ => Matches)
      Matches := by
  have hresult := directGuestAccess_result h .write address
  generalize hrun : directGuestAccess .write address c = result at hresult
  cases hresult with
  | slow h' =>
    have heq : storeGuest8 address value c = storeGuest address [value] _ := bind_ok hrun
    have hslow := storeGuest_both h' address [value]
    simp only [Both] at hslow ⊢
    rw [heq]
    exact hslow
  | @byte c' i m h' hm =>
    have hd : AddressSpace.DirectAt d.addressSpace { write := true } address i m :=
      ⟨h'.same.mappings ▸ hm.index, hm.direct, hm.base, hm.limit⟩
    obtain ⟨t', hwrite, hsame⟩ := hd.writeBytes h'.same.right value
    have hpoke : setHostByte i (address - m.base) value c'.addressSpace =
        AddressSpace.storeBytes i m (address - m.base) [value] c'.addressSpace := by
      simp only [setHostByte, hm.index, AddressSpace.storeBytes, hm.direct.file]
    set stored := AddressSpace.storeBytes i m (address - m.base) [value] c'.addressSpace
    have hshape : AddressSpace.SameShape c'.addressSpace stored :=
      AddressSpace.storeBytes_sameShape hm.index
    have hinv := h'.inv.of_sameShape hshape
      (h'.inv.lookup.of_sameShape hshape AddressSpace.storeBytes_mappingLookup)
    have hst : AddressSpace.SameSpace stored t' :=
      (AddressSpace.storeBytes_same h'.same hm.index).trans hsame
    -- The mapping is not executable, so the slow path leaves the version alone.
    have hversion : t'.executableVersion = d.addressSpace.executableVersion := by
      rw [← hsame.executableVersion, AddressSpace.storeBytes_executableVersion]
    have hget : (Computation.get : Helper GuestExecutionContext) d = (.ok d, d) := rfl
    have hfast : storeGuest8 address value c = (.ok [], { c' with addressSpace := stored }) := by
      rw [← hpoke]
      exact bind_ok hrun
    have hslow : storeGuest address [value] d = (.ok [], { d with addressSpace := t' }) := by
      refine (bind_ok hget).trans ((bind_ok (access_eq hwrite)).trans ?_)
      show (Except.ok [], { d with
        addressSpace := t'
        stopRepeating := d.stopRepeating ||
          t'.executableVersion != d.addressSpace.executableVersion }) = _
      rw [hversion, bne_self_eq_false, Bool.or_false]
    exact .ok hfast hslow (h'.of_space hinv hshape.mappings hst)
  | @error c' e h' he =>
    obtain ⟨t', hfind, hsame⟩ := h'.same.right.find_eq address 1 Direction.write.permission
    rw [he] at hfind
    have hwrite : AddressSpace.writeBytes address [value] d.addressSpace = (.error e, t') :=
      bind_error hfind
    have hget : (Computation.get : Helper GuestExecutionContext) d = (.ok d, d) := rfl
    refine .error (bind_error hrun) ((bind_ok hget).trans (bind_error (access_eq hwrite)))
      ⟨h'.inv, h'.same.trans hsame, h'.stop, h'.read, h'.write⟩

theorem GuestAccess.run_both (h : Matches c d) (a : GuestAccess) :
    Both a.run a.runSlow c d (fun _ => Matches) Matches := by
  cases a with
  | load8 address => exact loadGuest8_both h _
  | store8 address value => exact storeGuest8_both h _ _
  | load address size => exact loadGuest_both h _ _
  | store address data => exact storeGuest_both h _ _

/-- Any number of accesses. -/
theorem runAccesses_matches : ∀ (accesses : List GuestAccess) {c d : GuestExecutionContext},
    Matches c d →
    (runAccesses GuestAccess.run accesses c).1 = (runAccesses GuestAccess.runSlow accesses d).1 ∧
      Matches (runAccesses GuestAccess.run accesses c).2
        (runAccesses GuestAccess.runSlow accesses d).2
  | [], _, _, h => ⟨rfl, h⟩
  | a :: accesses, c, d, h => by
    obtain ⟨r, c', d', hx, hy, h'⟩ | ⟨e, c', d', hx, hy, h'⟩ := (GuestAccess.run_both h a).cases
    · obtain ⟨hresults, hend⟩ := runAccesses_matches accesses h'
      simp only [runAccesses, hx, hy, hresults]
      exact ⟨trivial, hend⟩
    · obtain ⟨hresults, hend⟩ := runAccesses_matches accesses h'
      simp only [runAccesses, hx, hy, hresults]
      exact ⟨trivial, hend⟩

end

/-- In a batch the helpers with their views return and throw what the address space alone
would, access by access, and leave the same mappings, bytes and executable version. -/
theorem directViews_indistinguishable (s : AddressSpace) (hs : s.Inv)
    (accesses : List GuestAccess) :
    let direct := runAccesses GuestAccess.run accesses (.ofRepeated s)
    let slow := runAccesses GuestAccess.runSlow accesses (.ofRepeated s)
    direct.1 = slow.1 ∧
      direct.2.addressSpace.invalidateMappingLookup =
        slow.2.addressSpace.invalidateMappingLookup ∧
      direct.2.addressSpace.executableVersion = slow.2.addressSpace.executableVersion ∧
      direct.2.stopRepeating = slow.2.stopRepeating := by
  have hentry : Matches (.ofRepeated s) (.ofRepeated s) :=
    ⟨hs, .refl hs.findable, rfl, fun i hi => by simp [ofRepeated] at hi,
      fun i hi => by simp [ofRepeated] at hi⟩
  obtain ⟨hresults, hend⟩ := runAccesses_matches accesses hentry
  exact ⟨hresults, hend.same.same, hend.same.executableVersion, hend.stop⟩

/-- A page of data that can be read and written. -/
def dataPage : Mapping where
  base := 0x1000
  size := 0x1000
  permissions := { read := true, write := true }
  maximumPermissions := { read := true, write := true }
  bytes := ⟨0x1000, fun _ => 0⟩

theorem dataPage_inv : AddressSpace.Inv { mappings := [dataPage] } where
  placed m hm := by
    obtain rfl := List.mem_singleton.mp hm
    exact ⟨by decide, by decide, by decide, by decide, by decide⟩
  sorted := List.pairwise_singleton _ _
  shaped m hm := by
    obtain rfl := List.mem_singleton.mp hm
    exact ⟨.inr rfl, .inl rfl, fun f hf => by simp [dataPage] at hf,
      fun t ht => by simp [dataPage] at ht⟩
  shift a ha b hb := by
    obtain rfl := List.mem_singleton.mp ha
    intro f hf
    simp [dataPage] at hf
  lookup := by simp [AddressSpace.LookupValid]

/-- A store through the view, read back by a wider load. -/
theorem directViews_indistinguishable_dataPage :
    (runAccesses GuestAccess.run [.store8 0x1001 7, .load 0x1000 2]
        (.ofRepeated { mappings := [dataPage] })).1 =
      (runAccesses GuestAccess.runSlow [.store8 0x1001 7, .load 0x1000 2]
        (.ofRepeated { mappings := [dataPage] })).1 :=
  (directViews_indistinguishable { mappings := [dataPage] } dataPage_inv
    [.store8 0x1001 7, .load 0x1000 2]).1

end Rosa
