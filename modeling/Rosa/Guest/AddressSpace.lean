import Rosa.Logic.Codec
import Mathlib.Data.List.Sort

/-!
# The guest address space

`guest/AddressSpace.cpp` and `guest/MappingBatch.cpp`. An address space is a vector of
mappings, a small cache of lookups and a counter of changes to executable memory. A
mapping keeps its bytes itself or refers to a host file mapping, which slices of one
mapping share at shifted offsets; file bytes may be transformed page by page when they
are first used.

Addresses and sizes are natural numbers below `2 ^ 64`; a sum the source lets wrap is
taken modulo `2 ^ 64`. A host vector is its size and its contents. What is behind
`shared_ptr` (file mappings and lazy transforms) lives in two tables of the state.
Memory that the host refuses to allocate is left out, a refused `mmap` is not.

The accessors of the source index the backing of a mapping without looking at its size.
Here such an access throws `outsideBacking`, which no operation of the source can do :
that it never happens is a property of the address space, not of its accessors.
-/

namespace Rosa

/-! ## Permissions and bytes -/

/-- `guestPageSize`. -/
def guestPageSize : Nat := 4096

/-- `guest::Permission`. -/
structure Permission where
  read : Bool := false
  write : Bool := false
  execute : Bool := false
  deriving DecidableEq, Repr

namespace Permission

/-- `Permission::None`. -/
def none : Permission := {}

/-- `hasPermission`. -/
def has (actual required : Permission) : Bool :=
  (!required.read || actual.read) && (!required.write || actual.write) &&
    (!required.execute || actual.execute)

@[simp] theorem has_self (p : Permission) : p.has p = true := by
  cases p; simp [has]

@[simp] theorem has_none (p : Permission) : p.has none = true := by
  simp [has, none]

theorem ne_none_of_has {p required : Permission} (h : p.has required = true)
    (hr : required ≠ none) : p ≠ none := by
  rintro rfl
  apply hr
  revert h
  rcases required with ⟨_ | _, _ | _, _ | _⟩ <;> decide

end Permission

/-- A host vector : its size and its contents. -/
structure HostVector (α : Type) where
  size : Nat
  get : Nat → α

namespace HostVector

variable {α : Type}

/-- No elements. -/
def empty (default : α) : HostVector α := ⟨0, fun _ => default⟩

/-- The vector starts with `data` and is filled with `default`. -/
def ofList (size : Nat) (data : List α) (default : α) : HostVector α :=
  ⟨size, fun i => data.getD i default⟩

/-- The elements from `offset` on, `size` of them. -/
def extract (v : HostVector α) (offset size : Nat) : HostVector α :=
  ⟨size, fun i => v.get (offset + i)⟩

end HostVector

/-- `std::copy` of `data` to the position `offset`. -/
def overwrite {α : Type} (contents : Nat → α) (offset : Nat) (data : List α) : Nat → α :=
  fun i => if offset ≤ i then (data[i - offset]?).getD (contents i) else contents i

/-- The bytes at `offset`, `size` of them. -/
def bytesAt (contents : Nat → Byte) (offset size : Nat) : List Byte :=
  (List.range size).map fun i => contents (offset + i)

/-! ## The state -/

abbrev FileId := Nat
abbrev TransformId := Nat

/-- `PrivateFileMapping` : host memory of a fixed size. -/
structure PrivateFileMapping where
  size : Nat
  data : Nat → Byte

/-- The callback of a lazy transform : the bytes of its span after the page, and what it
threw, if it did. A throw keeps the bytes written before it. -/
abbrev PageTransform := (size : Nat) → (Nat → Byte) → (page : Nat) → (Nat → Byte) × Option String

/-- `LazyFilePageTransform`. -/
structure LazyFilePageTransform where
  dataOffset : Nat
  size : Nat
  pageSize : Nat
  transformedPages : Nat → Bool
  transform : PageTransform

/-- `AddressSpace::Mapping`. -/
structure Mapping where
  base : Nat
  size : Nat
  permissions : Permission
  maximumPermissions : Permission
  bytes : HostVector Byte := .empty 0
  fileBytes : Option FileId := none
  fileDataOffset : Nat := 0
  lazyFileTransform : Option TransformId := none
  readableBytes : HostVector Bool := .empty false
  label : String := ""

/-- The end of a mapping, a 64-bit sum. -/
def Mapping.limit (m : Mapping) : Nat := (m.base + m.size) % 2 ^ 64

/-- `MappingLookupEntry`, for an entry that is valid. -/
structure MappingLookupEntry where
  base : Nat
  limit : Nat
  index : Nat
  deriving DecidableEq, Repr

/-- `AddressSpace`, with the host objects its mappings share. -/
structure AddressSpace where
  mappings : List Mapping := []
  mappingLookup : Nat → Option MappingLookupEntry := fun _ => none
  executableVersion : BitVec 64 := 0
  files : FileId → PrivateFileMapping := fun _ => ⟨0, fun _ => 0⟩
  fileCount : Nat := 0
  transforms : TransformId → LazyFilePageTransform :=
    fun _ => ⟨0, 0, 1, fun _ => false, fun _ bytes _ => (bytes, none)⟩
  transformCount : Nat := 0

/-- What an operation throws. -/
inductive AccessError
  | thrown (message : String)
  | outsideBacking
  deriving DecidableEq, Repr

/-- An operation of the address space. -/
abbrev Access (α : Type) := Computation AddressSpace AccessError α

namespace AddressSpace

open Rosa.Computation

/-- Throw with the message of the source. -/
def fail {α : Type} (message : String) : Access α := raise (.thrown message)

/-- Throw with the message of the source if the condition holds. -/
def failIf (condition : Bool) (message : String) : Access Unit :=
  raiseIf condition (.thrown message)

/-- Throw with the message, if there is one. -/
def failWith : Option String → Access Unit
  | none => pure ()
  | some message => fail message

/-- The access stays inside `size` bytes of backing. -/
def checkBacking (accessEnd size : Nat) : Access Unit :=
  raiseIf (size < accessEnd) .outsideBacking

/-- `++executableVersion_`, if the condition holds. -/
def bumped (condition : Bool) (s : AddressSpace) : AddressSpace :=
  { s with
    executableVersion := if condition then s.executableVersion + 1 else s.executableVersion }

/-- `++executableVersion_`, if the condition holds. -/
def bumpIf (condition : Bool) : Access Unit := modify (bumped condition)

/-! ## Lookup -/

/-- `std::lower_bound` by base. -/
def lowerBound (mappings : List Mapping) (value : Nat) : Nat :=
  (mappings.takeWhile fun m => m.base < value).length

/-- `std::upper_bound` by base. -/
def upperBound (mappings : List Mapping) (value : Nat) : Nat :=
  (mappings.takeWhile fun m => m.base ≤ value).length

/-- `rangeContains`. -/
def rangeContains (base mappingSize address accessSize : Nat) : Bool :=
  if address < base || mappingSize < accessSize then false
  else address - base ≤ mappingSize - accessSize

/-- The last mapping that starts at or below the address, if it holds the range. -/
def mappingHolding (mappings : List Mapping) (address size : Nat) : Option (Nat × Mapping) :=
  match upperBound mappings address with
  | 0 => none
  | i + 1 =>
    (mappings[i]?).bind fun m =>
      if rangeContains m.base m.size address size then some (i, m) else none

/-- `mappingContaining`. -/
def mappingContaining (mappings : List Mapping) (address : Nat) : Option Mapping :=
  (mappingHolding mappings address 1).map Prod.snd

/-- The entry of the lookup cache for an address. -/
def lookupIndex (address : Nat) : Nat :=
  let page := address >>> 12
  (page ^^^ (page >>> 16) ^^^ (page >>> 32)) &&& 15

/-- The mapping the lookup cache gives. -/
def cachedMapping (s : AddressSpace) (address size : Nat) : Option (Nat × Mapping) :=
  (s.mappingLookup (lookupIndex address)).bind fun cached =>
    (s.mappings[cached.index]?).bind fun m =>
      if cached.base ≤ address && address < cached.limit && size ≤ cached.limit - address &&
          m.base == cached.base then
        some (cached.index, m)
      else none

/-- `find` : the mapping and its index. -/
def find (address size : Nat) (required : Permission) : Access (Nat × Mapping) := do
  let s ← get
  match s.cachedMapping address size with
  | some (i, m) =>
    failIf (!m.permissions.has required) "guest memory access violates mapping permissions"
    pure (i, m)
  | none =>
    match mappingHolding s.mappings address size with
    | some (i, m) =>
      failIf (!m.permissions.has required) "guest memory access violates mapping permissions"
      modify fun s =>
        { s with
          mappingLookup := Function.update s.mappingLookup (lookupIndex address)
            (some ⟨m.base, m.limit, i⟩) }
      pure (i, m)
    | none => fail "guest memory access is unmapped"

/-- `invalidateMappingLookup`. -/
def invalidateMappingLookup (s : AddressSpace) : AddressSpace :=
  { s with mappingLookup := fun _ => none }

/-! ## Lazy file pages -/

/-- One call of the callback : the file's bytes after it, and what it threw. -/
def transformPage (t : LazyFilePageTransform) (data : Nat → Byte) (page : Nat) :
    (Nat → Byte) × Option String :=
  let result := t.transform t.size (fun i => data (t.dataOffset + i)) page
  (fun j =>
    if t.dataOffset ≤ j && j < t.dataOffset + t.size then result.1 (j - t.dataOffset)
    else data j, result.2)

/-- The space after a call of the callback : the page is marked unless it threw. -/
def applyTransform (file : FileId) (transform : TransformId) (page : Nat) (s : AddressSpace) :
    AddressSpace :=
  let t := s.transforms transform
  let result := transformPage t (s.files file).data page
  { s with
    files := Function.update s.files file { s.files file with data := result.1 }
    transforms :=
      if result.2.isSome then s.transforms
      else
        Function.update s.transforms transform
          { t with transformedPages := Function.update t.transformedPages page true } }

/-- The loop of `materialize` over `count` pages from `page` on. -/
def materializePages (file : FileId) (transform : TransformId) : Nat → Nat → Access Unit
  | 0, _ => pure ()
  | count + 1, page => do
    let s ← get
    let t := s.transforms transform
    if t.transformedPages page then
      materializePages file transform count (page + 1)
    else
      checkBacking (t.dataOffset + t.size) (s.files file).size
      modify (applyTransform file transform page)
      failWith (transformPage t (s.files file).data page).2
      materializePages file transform count (page + 1)

/-- `LazyFilePageTransform::materialize`. -/
def materialize (file : FileId) (transform : TransformId) (dataOffset size : Nat) :
    Access Unit := do
  let s ← get
  let t := s.transforms transform
  if size = 0 then pure ()
  else
    failIf
      (dataOffset < t.dataOffset || t.size < dataOffset - t.dataOffset ||
        t.size - (dataOffset - t.dataOffset) < size)
      "lazy guest file transform lies outside its backing mapping"
    let firstByte := dataOffset - t.dataOffset
    let firstPage := firstByte / t.pageSize
    let lastPage := (firstByte + size - 1) / t.pageSize
    materializePages file transform (lastPage + 1 - firstPage) firstPage

/-- `materializeFileBytes`. -/
def materializeFileBytes (m : Mapping) (offset size : Nat) : Access Unit :=
  match m.fileBytes, m.lazyFileTransform with
  | some file, some transform => materialize file transform (m.fileDataOffset + offset) size
  | _, _ => pure ()

/-! ## Creating mappings -/

/-- `validateNewMapping`. -/
def validateNewMapping (base size : Nat) (permissions maximumPermissions : Permission) :
    Access Unit := do
  failIf (size == 0 || base % guestPageSize != 0 || size % guestPageSize != 0)
    "guest mappings must be nonempty and 4 KiB aligned"
  failIf (2 ^ 64 - 1 - size < base) "guest mapping address overflows"
  failIf (!maximumPermissions.has permissions)
    "guest mapping permissions exceed maximum permissions"
  let s ← get
  let next := lowerBound s.mappings base
  failIf ((s.mappings[next]?).any fun m => m.base < base + size)
    "guest mapping overlaps an existing mapping"
  failIf (next != 0 && (s.mappings[next - 1]?).any fun m => base < m.limit)
    "guest mapping overlaps an existing mapping"

/-- `insertMapping`. -/
def insertMapping (m : Mapping) : Access Unit := do
  modify fun s =>
    invalidateMappingLookup
      { s with mappings := s.mappings.insertIdx (lowerBound s.mappings m.base) m }
  bumpIf m.permissions.execute

/-- Host memory for a new mapping. -/
def allocateFile (file : PrivateFileMapping) : Access FileId := fun s =>
  (.ok s.fileCount,
    { s with files := Function.update s.files s.fileCount file, fileCount := s.fileCount + 1 })

/-- `mapAnonymous`; `refused` is the reason the host gives for refusing the memory. -/
def mapAnonymous (base size : Nat) (permissions maximumPermissions : Permission)
    (label : String) (refused : Option String) : Access Unit := do
  validateNewMapping base size permissions maximumPermissions
  if maximumPermissions = .none then
    insertMapping { base, size, permissions, maximumPermissions, label }
  else
    failWith (refused.map ("cannot reserve anonymous guest backing: " ++ ·))
    let backing ← allocateFile ⟨size, fun _ => 0⟩
    insertMapping
      { base, size, permissions, maximumPermissions, fileBytes := some backing, label }

/-- The bytes of a mapping that is backed only if it may ever be accessed. -/
def segmentBacking (size : Nat) (maximumPermissions : Permission) (initialBytes : List Byte) :
    HostVector Byte :=
  if maximumPermissions = .none then .empty 0 else .ofList size initialBytes 0

/-- `addMapping`. -/
def addMapping (base size : Nat) (permissions maximumPermissions : Permission)
    (initialBytes : List Byte) (label : String) : Access Unit := do
  validateNewMapping base size permissions maximumPermissions
  insertMapping
    { base, size, permissions, maximumPermissions
      bytes := segmentBacking size maximumPermissions initialBytes, label }

/-- `mapSegment`. -/
def mapSegment (base size : Nat) (permissions maximumPermissions : Permission)
    (fileBytes : List Byte) (label : String) : Access Unit := do
  failIf (size < fileBytes.length) "guest segment file bytes exceed virtual size"
  addMapping base size permissions maximumPermissions fileBytes label

/-- What the host answers about a file. -/
structure HostFile where
  path : String
  openError : Option String := none
  inspectError : Option String := none
  pageSize : Int := 4096
  size : Int := 0
  contents : Nat → Byte := fun _ => 0
  mapError : Option String := none

/-- `fileMappingError`. -/
def fileMappingError (operation path reason : String) : String :=
  operation ++ " " ++ path ++ ": " ++ reason

/-- `mapFileSegment`. -/
def mapFileSegment (base size : Nat) (permissions maximumPermissions : Permission)
    (file : HostFile) (fileOffset : Nat) (label : String) : Access Unit := do
  validateNewMapping base size permissions maximumPermissions
  failWith (file.openError.map (fileMappingError "cannot open guest file backing" file.path))
  failWith (file.inspectError.map (fileMappingError "cannot inspect guest file backing" file.path))
  failIf (file.pageSize ≤ 0) "cannot query host page size for guest file backing"
  let hostPageSize := file.pageSize.toNat
  failIf (file.size < 0 || file.size < fileOffset) "guest file-backed mapping exceeds source file"
  let alignedOffset := fileOffset - fileOffset % hostPageSize
  let leading := fileOffset - alignedOffset
  failIf (2 ^ 64 - 1 < leading) "guest file-backed mapping prefix overflows"
  failIf (2 ^ 64 - 1 - size < leading) "guest file-backed mapping size overflows"
  let hostMappingSize := leading + size
  let sourceExtent := leading + (file.size.toNat - fileOffset)
  let sourceRemainder := sourceExtent % hostPageSize
  let roundedSourceExtent :=
    if sourceRemainder = 0 then sourceExtent
    else sourceExtent + (hostPageSize - sourceRemainder)
  failIf (roundedSourceExtent < hostMappingSize)
    "guest file-backed mapping exceeds source file pages"
  failWith (file.mapError.map (fileMappingError "cannot map guest file backing" file.path))
  let backing ← allocateFile
    ⟨hostMappingSize, fun i =>
      if alignedOffset + i < file.size.toNat then file.contents (alignedOffset + i) else 0⟩
  insertMapping
    { base, size, permissions, maximumPermissions
      fileBytes := some backing, fileDataOffset := leading, label }

/-- `mapSparseReadOnly`. -/
def mapSparseReadOnly (base size dataOffset : Nat) (data : List Byte) (label : String) :
    Access Unit := do
  failIf (size < dataOffset || size - dataOffset < data.length)
    "sparse guest data lies outside its mapping"
  validateNewMapping base size { read := true } { read := true }
  insertMapping
    { base, size, permissions := { read := true }, maximumPermissions := { read := true }
      bytes := ⟨size, overwrite (fun _ => 0) dataOffset data⟩
      readableBytes :=
        ⟨size, overwrite (fun _ => false) dataOffset (List.replicate data.length true)⟩
      label }

/-- `populateSparseReadOnly`. -/
def populateSparseReadOnly (address : Nat) (data : List Byte) : Access Unit := do
  if data = [] then pure ()
  else
    let (i, m) ← find address data.length { read := true }
    failIf (m.readableBytes.size == 0) "guest mapping is not sparse read-only data"
    let offset := address - m.base
    checkBacking (offset + data.length) m.readableBytes.size
    checkBacking (offset + data.length) m.bytes.size
    modify fun s =>
      { s with
        mappings := s.mappings.set i
          { m with
            readableBytes :=
              ⟨m.readableBytes.size,
                overwrite m.readableBytes.get offset (List.replicate data.length true)⟩
            bytes := ⟨m.bytes.size, overwrite m.bytes.get offset data⟩ } }

/-- `SegmentMapping`. -/
structure SegmentMapping where
  base : BitVec 64
  size : BitVec 64
  permissions : Permission
  maximumPermissions : Permission
  initialBytes : List Byte := []
  label : String := ""

/-- The merge of `mapSegments` : of two mappings the one with the lower base first, the
pending one if the bases agree. -/
def mergeMappings : List Mapping → List Mapping → List Mapping
  | [], pending => pending
  | existing, [] => existing
  | e :: existing, p :: pending =>
    if e.base < p.base then e :: mergeMappings existing (p :: pending)
    else p :: mergeMappings (e :: existing) pending

/-- The first loop of `mapSegments`. -/
def validateSegments : List SegmentMapping → Access Unit
  | [] => pure ()
  | request :: requests => do
    failIf (request.size.toNat < request.initialBytes.length)
      "guest segment file bytes exceed virtual size"
    validateNewMapping request.base.toNat request.size.toNat request.permissions
      request.maximumPermissions
    validateSegments requests

/-- Two neighbours of the sorted batch overlap. -/
def batchOverlaps : List SegmentMapping → Bool
  | previous :: current :: rest =>
    current.base < previous.base + previous.size || batchOverlaps (current :: rest)
  | _ => false

/-- The pending mapping of a request. -/
def SegmentMapping.toMapping (request : SegmentMapping) : Mapping :=
  { base := request.base.toNat, size := request.size.toNat
    permissions := request.permissions, maximumPermissions := request.maximumPermissions
    bytes := segmentBacking request.size.toNat request.maximumPermissions request.initialBytes
    label := request.label }

/-- `mapSegments`. The lookup cache is kept. -/
def mapSegments (requests : List SegmentMapping) : Access Unit := do
  if requests.isEmpty then pure ()
  else
    let s ← get
    failIf (2 ^ 64 - 1 - s.mappings.length < requests.length)
      "guest mapping batch count overflows"
    validateSegments requests
    let order := requests.mergeSort fun a b => a.base.toNat ≤ b.base.toNat
    failIf (batchOverlaps order) "guest mapping batch contains overlapping mappings"
    modify fun s =>
      { s with mappings := mergeMappings s.mappings (order.map SegmentMapping.toMapping) }
    bumpIf (requests.any fun request => request.permissions.execute)

/-! ## Changing mappings -/

/-- `ProtectResult`. -/
inductive ProtectResult
  | success | invalidAddress | protectionFailure | invalidArgument
  deriving DecidableEq, Repr

/-- `DeallocateResult`. -/
inductive DeallocateResult
  | success | invalidArgument
  deriving DecidableEq, Repr

/-- The page-rounded range of `protect` and `deallocate`. -/
def pageRange (address size : Nat) : Option (Nat × Nat) :=
  if 2 ^ 64 - 1 - size < address then none
  else if 2 ^ 64 - 1 - (guestPageSize - 1) < address + size then none
  else some (address / guestPageSize * guestPageSize,
    (address + size + guestPageSize - 1) / guestPageSize * guestPageSize)

/-- The first loop of `protect` : whether an executable mapping is in the range. A loop
makes one turn for each mapping of the range. -/
def scanRange (mappings : List Mapping) (permissions : Permission) (makePrivateCopy : Bool)
    (limit : Nat) : Nat → Nat → Bool → Except ProtectResult Bool
  | 0, _, _ => .error .invalidAddress
  | fuel + 1, cursor, changesExecutable =>
    if limit ≤ cursor then .ok changesExecutable
    else
      match mappingContaining mappings cursor with
      | none => .error .invalidAddress
      | some m =>
        if !makePrivateCopy && !m.maximumPermissions.has permissions then
          .error .protectionFailure
        else
          scanRange mappings permissions makePrivateCopy limit fuel
            (min limit m.limit) (changesExecutable || m.permissions.execute)

/-- `slice`. -/
def slice (source : Mapping) (sliceStart sliceEnd : Nat)
    (permissions maximumPermissions : Permission) : Mapping :=
  let offset := sliceStart - source.base
  let sliceSize := sliceEnd - sliceStart
  { base := sliceStart
    size := sliceSize
    permissions := permissions
    maximumPermissions := maximumPermissions
    fileBytes := source.fileBytes
    fileDataOffset := source.fileDataOffset + offset
    lazyFileTransform := source.lazyFileTransform
    bytes := if source.bytes.size = 0 then .empty 0 else source.bytes.extract offset sliceSize
    readableBytes :=
      if source.readableBytes.size = 0 then .empty false
      else source.readableBytes.extract offset sliceSize
    label := source.label }

/-- `slice` with the permissions of its source, as `deallocate` has it. -/
def keepSlice (source : Mapping) (sliceStart sliceEnd : Nat) : Mapping :=
  slice source sliceStart sliceEnd source.permissions source.maximumPermissions

/-- The mapping lies outside the range. -/
def outsideRange (start limit : Nat) (m : Mapping) : Bool :=
  m.limit ≤ start || limit ≤ m.base

/-- The pieces `protect` puts in the place of a mapping. -/
def protectPieces (start limit : Nat) (permissions : Permission) (makePrivateCopy : Bool)
    (m : Mapping) : List Mapping :=
  if outsideRange start limit m then [m]
  else
    let protectedStart := max m.base start
    let protectedEnd := min m.limit limit
    (if m.base < start then [keepSlice m m.base start] else []) ++
      [slice m protectedStart protectedEnd permissions
        (if makePrivateCopy then permissions else m.maximumPermissions)] ++
      (if protectedEnd < m.limit then [keepSlice m protectedEnd m.limit] else [])

/-- `protect`. -/
def protect (address size : Nat) (permissions : Permission) (makePrivateCopy : Bool) :
    Access ProtectResult := do
  if size = 0 then pure .success
  else
    match pageRange address size with
    | none => pure .invalidArgument
    | some (start, limit) =>
      let s ← get
      match scanRange s.mappings permissions makePrivateCopy limit (s.mappings.length + 1) start
          permissions.execute with
      | .error result => pure result
      | .ok changesExecutableMapping =>
        modify fun s =>
          invalidateMappingLookup
            { s with
              mappings := s.mappings.flatMap
                (protectPieces start limit permissions makePrivateCopy) }
        bumpIf changesExecutableMapping
        pure .success

/-- The pieces `deallocate` leaves of a mapping. -/
def deallocatePieces (start limit : Nat) (m : Mapping) : List Mapping :=
  if outsideRange start limit m then [m]
  else
    (if m.base < start then [keepSlice m m.base start] else []) ++
      (if limit < m.limit then [keepSlice m limit m.limit] else [])

/-- `deallocate`. -/
def deallocate (address size : Nat) : Access DeallocateResult := do
  if size = 0 then pure .success
  else
    match pageRange address size with
    | none => pure .invalidArgument
    | some (start, limit) =>
      let s ← get
      modify fun s =>
        invalidateMappingLookup
          { s with mappings := s.mappings.flatMap (deallocatePieces start limit) }
      bumpIf (s.mappings.any fun m => !outsideRange start limit m && m.permissions.execute)
      pure .success

/-- `installLazyFilePageTransform`; a callback that is missing is refused. -/
def installLazyFilePageTransform (base pageSize : Nat) (transform : Option PageTransform) :
    Access Unit := do
  match transform with
  | none => fail "lazy guest file transform is invalid"
  | some transform =>
    failIf (pageSize == 0) "lazy guest file transform is invalid"
    let s ← get
    let i := lowerBound s.mappings base
    match s.mappings[i]? with
    | none => fail "lazy guest file transform requires an exact file mapping"
    | some m =>
      failIf (m.base != base || m.fileBytes.isNone)
        "lazy guest file transform requires an exact file mapping"
      failIf (m.size % pageSize != 0) "lazy guest file transform page geometry is invalid"
      modify fun s =>
        { s with
          transforms := Function.update s.transforms s.transformCount
            ⟨m.fileDataOffset, m.size, pageSize, fun _ => false, transform⟩
          transformCount := s.transformCount + 1
          mappings := s.mappings.set i { m with lazyFileTransform := some s.transformCount } }

/-! ## Accesses -/

/-- The bytes of a mapping at an offset. -/
def loadChunk (m : Mapping) (offset size : Nat) : Access (List Byte) := do
  match m.fileBytes with
  | some file =>
    materializeFileBytes m offset size
    let s ← get
    checkBacking (m.fileDataOffset + offset + size) (s.files file).size
    pure (bytesAt (s.files file).data (m.fileDataOffset + offset) size)
  | none =>
    checkBacking (offset + size) m.bytes.size
    pure (bytesAt m.bytes.get offset size)

/-- The bytes of a sparse mapping are there. -/
def checkReadable (m : Mapping) (offset size : Nat) : Access Unit :=
  if m.readableBytes.size = 0 then pure ()
  else do
    checkBacking (offset + size) m.readableBytes.size
    failIf ((List.range size).any fun i => !m.readableBytes.get (offset + i))
      "guest read targets unsupported sparse mapping data"

/-- The loop of `readInto`; each turn reads at least one byte. -/
def readFrom : Nat → Nat → Nat → Access (List Byte)
  | 0, _, _ => pure []
  | fuel + 1, cursor, remaining => do
    if remaining = 0 then pure []
    else
      let (_, m) ← find cursor 1 { read := true }
      let offset := cursor - m.base
      let chunk := min remaining (m.size - offset)
      checkReadable m offset chunk
      let bytes ← loadChunk m offset chunk
      let rest ← readFrom fuel ((cursor + chunk) % 2 ^ 64) (remaining - chunk)
      pure (bytes ++ rest)

/-- `readInto`, and with it `readBytes`. -/
def readInto (address size : Nat) : Access (List Byte) := readFrom size address size

/-- `readU8`, `readU16`, `readU32` and `readU64` : the bytes of a word, from one mapping
if they all are in it. -/
def readWord (address size : Nat) : Access (List Byte) := do
  let (_, m) ← find address 1 { read := true }
  let offset := address - m.base
  if m.readableBytes.size = 0 ∧ size ≤ m.size - offset then loadChunk m offset size
  else readInto address size

/-- The loop of `validateAccess`. -/
def validateFrom (required : Permission) : Nat → Nat → Nat → Access Unit
  | 0, _, _ => pure ()
  | fuel + 1, cursor, remaining => do
    if remaining = 0 then pure ()
    else
      let (_, m) ← find cursor 1 required
      let chunk := min remaining (m.size - (cursor - m.base))
      validateFrom required fuel ((cursor + chunk) % 2 ^ 64) (remaining - chunk)

/-- `validateAccess`. -/
def validateAccess (address size : Nat) (required : Permission) : Access Unit :=
  validateFrom required size address size

/-- The space with `data` in the backing of the mapping at index `i`. -/
def storeBytes (i : Nat) (m : Mapping) (offset : Nat) (data : List Byte) (s : AddressSpace) :
    AddressSpace :=
  match m.fileBytes with
  | some file =>
    { s with
      files := Function.update s.files file
        { s.files file with
          data := overwrite (s.files file).data (m.fileDataOffset + offset) data } }
  | none =>
    { s with
      mappings := s.mappings.set i
        { m with bytes := ⟨m.bytes.size, overwrite m.bytes.get offset data⟩ } }

/-- Write `data` into the backing of the mapping at index `i`. -/
def storeChunk (i : Nat) (m : Mapping) (offset : Nat) (data : List Byte) : Access Unit := do
  let s ← get
  match m.fileBytes with
  | some file => checkBacking (m.fileDataOffset + offset + data.length) (s.files file).size
  | none => checkBacking (offset + data.length) m.bytes.size
  modify (storeBytes i m offset data)

/-- The validating loop of `writeBytes` : whether an executable mapping is written. -/
def validateWrite : Nat → Nat → Nat → Access Bool
  | 0, _, _ => pure false
  | fuel + 1, cursor, remaining => do
    if remaining = 0 then pure false
    else
      let (_, m) ← find cursor 1 { write := true }
      let offset := cursor - m.base
      let chunk := min remaining (m.size - offset)
      materializeFileBytes m offset chunk
      let rest ← validateWrite fuel ((cursor + chunk) % 2 ^ 64) (remaining - chunk)
      pure (m.permissions.execute || rest)

/-- The copying loop of `writeBytes`. -/
def copyBytes : Nat → Nat → List Byte → Access Unit
  | 0, _, _ => pure ()
  | fuel + 1, cursor, data => do
    if data = [] then pure ()
    else
      let (i, m) ← find cursor 1 { write := true }
      let offset := cursor - m.base
      let chunk := min data.length (m.size - offset)
      storeChunk i m offset (data.take chunk)
      copyBytes fuel ((cursor + chunk) % 2 ^ 64) (data.drop chunk)

/-- `writeBytes`. -/
def writeBytes (address : Nat) (data : List Byte) : Access Unit := do
  if data = [] then pure ()
  else
    let (i, m) ← find address 1 { write := true }
    let offset := address - m.base
    if data.length ≤ m.size - offset then
      materializeFileBytes m offset data.length
      storeChunk i m offset data
      bumpIf m.permissions.execute
    else
      let changesExecutableBytes ← validateWrite data.length address data.length
      copyBytes data.length address data
      bumpIf changesExecutableBytes

/-- The bytes of a word, the low one first. -/
def wordBytes (size : Nat) (value : BitVec 64) : List Byte := littleEndian size value

/-- `writeU32` and `writeU64`. -/
def writeWord (address size : Nat) (value : BitVec 64) : Access Unit :=
  writeBytes address (wordBytes size value)

/-- `directMemoryView` : the mapping whose bytes are handed out, and its index. -/
def directMemoryView (address : Nat) (required : Permission) : Access (Option (Nat × Mapping)) := do
  let (i, m) ← find address 1 required
  if m.fileBytes.isSome || m.readableBytes.size != 0 || m.bytes.size != m.size ||
      (required.write && m.permissions.execute) then
    pure none
  else pure (some (i, m))

/-- A write through a direct view that was asked for writing. -/
def writeDirect (address : Nat) (required : Permission) (offset : Nat) (data : List Byte) :
    Access Unit := do
  match ← directMemoryView address { required with write := true } with
  | none => pure ()
  | some (i, m) => if offset + data.length ≤ m.size then storeChunk i m offset data else pure ()

/-- `executableBytes` : the size and the contents of the span. -/
def executableBytes (address : Nat) : Access (List Byte) := do
  let (_, m) ← find address 1 { execute := true }
  let offset := address - m.base
  match m.fileBytes with
  | some _ => loadChunk m offset (m.size - offset)
  | none =>
    checkBacking offset m.bytes.size
    pure (bytesAt m.bytes.get offset (m.bytes.size - offset))

/-- `mutablePrivateFileMappingBytes`, with what the loader writes into the span. -/
def mutablePrivateFileMappingBytes (base : Nat) (edit : List Byte → List Byte) :
    Access Unit := do
  let s ← get
  let i := lowerBound s.mappings base
  match s.mappings[i]? with
  | none => fail "guest loader requested a non-file-backed mapping"
  | some m =>
    failIf (m.base != base || m.fileBytes.isNone)
      "guest loader requested a non-file-backed mapping"
    bumpIf m.permissions.execute
    let bytes ← loadChunk m 0 m.size
    storeChunk i m 0 ((edit bytes).take m.size)

/-! ## Sequences of calls -/

/-- A call of the address space, with the arguments its types allow. -/
inductive Call
  | mapAnonymous (base size : BitVec 64) (permissions maximumPermissions : Permission)
      (label : String) (refused : Option String)
  | mapSegment (base size : BitVec 64) (permissions maximumPermissions : Permission)
      (fileBytes : List Byte) (label : String)
  | mapSegments (requests : List SegmentMapping)
  | mapFileSegment (base size : BitVec 64) (permissions maximumPermissions : Permission)
      (file : HostFile) (fileOffset : BitVec 64) (label : String)
  | mapSparseReadOnly (base size dataOffset : BitVec 64) (data : List Byte) (label : String)
  | populateSparseReadOnly (address : BitVec 64) (data : List Byte)
  | protect (address size : BitVec 64) (permissions : Permission) (makePrivateCopy : Bool)
  | deallocate (address size : BitVec 64)
  | readBytes (address size : BitVec 64)
  | readWord (address : BitVec 64) (size : Nat)
  | validateAccess (address size : BitVec 64) (required : Permission)
  | writeBytes (address : BitVec 64) (data : List Byte)
  | writeWord (address : BitVec 64) (size : Nat) (value : BitVec 64)
  | directMemoryView (address : BitVec 64) (required : Permission)
  | writeDirect (address : BitVec 64) (required : Permission) (offset : Nat) (data : List Byte)
  | executableBytes (address : BitVec 64)
  | installLazyFilePageTransform (base pageSize : BitVec 64) (transform : Option PageTransform)
  | mutablePrivateFileMappingBytes (base : BitVec 64) (edit : List Byte → List Byte)

/-- Forget the result. -/
def ignore {α : Type} (x : Access α) : Access Unit := do
  let _ ← x
  pure ()

/-- What a call does. -/
def Call.run : Call → Access Unit
  | mapAnonymous base size permissions maximum label refused =>
    AddressSpace.mapAnonymous base.toNat size.toNat permissions maximum label refused
  | mapSegment base size permissions maximum fileBytes label =>
    AddressSpace.mapSegment base.toNat size.toNat permissions maximum fileBytes label
  | mapSegments requests => AddressSpace.mapSegments requests
  | mapFileSegment base size permissions maximum file fileOffset label =>
    AddressSpace.mapFileSegment base.toNat size.toNat permissions maximum file fileOffset.toNat
      label
  | mapSparseReadOnly base size dataOffset data label =>
    AddressSpace.mapSparseReadOnly base.toNat size.toNat dataOffset.toNat data label
  | populateSparseReadOnly address data =>
    AddressSpace.populateSparseReadOnly address.toNat data
  | protect address size permissions makePrivateCopy =>
    ignore (AddressSpace.protect address.toNat size.toNat permissions makePrivateCopy)
  | deallocate address size => ignore (AddressSpace.deallocate address.toNat size.toNat)
  | readBytes address size => ignore (AddressSpace.readInto address.toNat size.toNat)
  | readWord address size => ignore (AddressSpace.readWord address.toNat size)
  | validateAccess address size required =>
    AddressSpace.validateAccess address.toNat size.toNat required
  | writeBytes address data => AddressSpace.writeBytes address.toNat data
  | writeWord address size value => AddressSpace.writeWord address.toNat size value
  | directMemoryView address required =>
    ignore (AddressSpace.directMemoryView address.toNat required)
  | writeDirect address required offset data =>
    AddressSpace.writeDirect address.toNat required offset data
  | executableBytes address => ignore (AddressSpace.executableBytes address.toNat)
  | installLazyFilePageTransform base pageSize transform =>
    AddressSpace.installLazyFilePageTransform base.toNat pageSize.toNat transform
  | mutablePrivateFileMappingBytes base edit =>
    AddressSpace.mutablePrivateFileMappingBytes base.toNat edit

/-- The space after a call, returned or thrown. -/
def after (s : AddressSpace) (call : Call) : AddressSpace := (call.run s).2

/-- The space after a sequence of calls. -/
def afterAll (s : AddressSpace) (calls : List Call) : AddressSpace := calls.foldl after s

end AddressSpace

end Rosa
