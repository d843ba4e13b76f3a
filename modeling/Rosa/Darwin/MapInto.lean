import Rosa.Darwin.FailedTraps
import Rosa.Darwin.SharedCache
import Rosa.Guest.MappingBatch

/-!
# Mapping the shared cache

`GuestSharedCache::mapInto` : the mappings of the files, the lazy transforms that rebase the
pointers of a page when it is used, and the dynamic data.
-/

namespace Rosa

namespace AddressSpace

open Rosa.Computation

variable {s : AddressSpace}

/-! ## One file mapping -/

/-- The mapping that `mapFileSegment` makes. -/
def fileMapping (base size : Nat) (permissions maximumPermissions : Permission) (file : HostFile)
    (fileOffset : Nat) (label : String) (backing : FileId) : Mapping where
  base := base
  size := size
  permissions := permissions
  maximumPermissions := maximumPermissions
  fileBytes := some backing
  fileDataOffset := fileOffset - (fileOffset - fileOffset % file.pageSize.toNat)
  label := label

/-- The host memory that `mapFileSegment` makes. -/
def fileBacking (size : Nat) (file : HostFile) (fileOffset : Nat) : PrivateFileMapping :=
  let alignedOffset := fileOffset - fileOffset % file.pageSize.toNat
  ⟨fileOffset - alignedOffset + size, fun i =>
    if alignedOffset + i < file.size.toNat then file.contents (alignedOffset + i) else 0⟩

theorem fileBacking_data {size fileOffset o : Nat} {file : HostFile} (ho : o < size)
    (hinside : fileOffset + size ≤ file.size.toNat) :
    (fileBacking size file fileOffset).data
      (fileOffset - (fileOffset - fileOffset % file.pageSize.toNat) + o) =
        file.contents (fileOffset + o) := by
  have hle := Nat.mod_le fileOffset file.pageSize.toNat
  have hsum : fileOffset - fileOffset % file.pageSize.toNat +
      (fileOffset - (fileOffset - fileOffset % file.pageSize.toNat) + o) = fileOffset + o := by
    omega
  simp only [fileBacking, hsum]
  rw [if_pos (by omega)]

/-- A part of a file is mapped where there is room, if the host can map the file. -/
theorem Fits.mapFileSegment_eq (hi : Inv s) {base size : Nat}
    {permissions maximumPermissions : Permission} {file : HostFile} (fileOffset : Nat)
    (label : String) (h : Fits s base size permissions maximumPermissions)
    (hopen : file.openError = none) (hinspect : file.inspectError = none)
    (hmap : file.mapError = none) (hpage : 0 < file.pageSize)
    (hinside : fileOffset + size ≤ file.size.toNat) (hsmall : file.size.toNat < 2 ^ 63) :
    mapFileSegment base size permissions maximumPermissions file fileOffset label s =
      (.ok (), inserted (fileMapping base size permissions maximumPermissions file fileOffset label
        s.fileCount) (allocated (fileBacking size file fileOffset) s)) := by
  have hle := Nat.mod_le fileOffset file.pageSize.toNat
  have hnonempty := h.nonempty
  have hnone (message : String → String) :
      failWith (Option.map message none) s = (.ok (), s) := rfl
  unfold mapFileSegment
  rw [bind_ok (h.validateNewMapping_eq hi), hopen, hinspect, hmap, bind_ok (hnone _),
    bind_ok (hnone _), failIf_bind_eq (by simpa using hpage)]
  dsimp only
  rw [failIf_bind_eq (by simp; omega), failIf_bind_eq (by simp; omega),
    failIf_bind_eq (by simp; omega), failIf_bind_eq, bind_ok (hnone _)]
  · rfl
  · rw [decide_eq_false_iff_not, not_lt]
    split <;> omega

/-- Bytes are mapped where there is room. -/
theorem Fits.mapSegment_eq (hi : Inv s) {base size : Nat}
    {permissions maximumPermissions : Permission} {fileBytes : List Byte} (label : String)
    (h : Fits s base size permissions maximumPermissions) (hroom : fileBytes.length ≤ size) :
    mapSegment base size permissions maximumPermissions fileBytes label s =
      (.ok (), inserted
        { base, size, permissions, maximumPermissions
          bytes := segmentBacking size maximumPermissions fileBytes, label } s) := by
  unfold mapSegment addMapping
  rw [failIf_bind_eq (by simpa using hroom), bind_ok (h.validateNewMapping_eq hi)]
  rfl

theorem getElem?_lowerBound (hi : Inv s) {m : Mapping} (hm : m ∈ s.mappings) :
    s.mappings[lowerBound s.mappings m.base]? = some m := by
  have hnonempty := fun a ha => (hi.placed a ha).nonempty
  have hsorted := hi.sorted
  obtain ⟨before, after, heq⟩ := List.append_of_mem hm
  rw [heq] at hnonempty hsorted ⊢
  have hbefore : ∀ a ∈ before, decide (a.base < m.base) = true := by
    intro a ha
    have hle := (List.pairwise_append.mp hsorted).2.2 a ha m List.mem_cons_self
    have hpos := hnonempty a (List.mem_append_left _ ha)
    rw [decide_eq_true_eq]
    omega
  rw [lowerBound, List.takeWhile_append_of_pos hbefore,
    List.takeWhile_cons_of_neg (by simp), List.append_nil, List.getElem?_append_right (le_refl _),
    Nat.sub_self, List.getElem?_cons_zero]

/-- A lazy transform can be installed on a file mapping of whole pages. -/
theorem installLazyFilePageTransform_eq (hi : Inv s) {m : Mapping} (hm : m ∈ s.mappings)
    {pageSize : Nat} (transform : PageTransform) (hfile : m.fileBytes.isSome = true)
    (hpos : 0 < pageSize) (hgeometry : m.size % pageSize = 0) :
    ∃ s', installLazyFilePageTransform m.base pageSize (some transform) s = (.ok (), s') ∧
      Installed s (lowerBound s.mappings m.base) pageSize m transform s' := by
  have hindex := getElem?_lowerBound hi hm
  have hget : (Computation.get : Access AddressSpace) s = (.ok s, s) := rfl
  refine ⟨_, ?_, hindex, hfile, hpos, hgeometry, rfl⟩
  unfold installLazyFilePageTransform
  have hsome : m.fileBytes.isNone = false := by
    rw [Option.isNone_eq_false_iff]
    exact hfile
  dsimp only
  rw [failIf_bind_eq (by simpa using by omega), bind_ok hget, hindex]
  dsimp only
  rw [failIf_bind_eq (by simp [hsome]), failIf_bind_eq (by simp [hgeometry])]
  rfl

end AddressSpace

namespace Darwin.GuestSharedCache

open Rosa.Computation AddressSpace

/-! ## The source -/

/-- `slide` of the cache. -/
def slide : BitVec 64 := 0

/-- Where a mapping is put. -/
def SharedCacheMapping.slidAddress (mapping : SharedCacheMapping) : BitVec 64 :=
  mapping.address + slide

/-- The label of a mapping. -/
def SharedCacheMapping.label (mapping : SharedCacheMapping) (index : Nat) : String :=
  "dyld-cache" ++ mapping.sourceSuffix ++ ":mapping-" ++ toString index

/-- The first loop of `mapInto`. -/
def mapFiles (files : String → AddressSpace.HostFile) :
    Nat → List SharedCacheMapping → Access Unit
  | _, [] => pure ()
  | index, mapping :: mappings => do
    mapFileSegment mapping.slidAddress.toNat mapping.size.toNat mapping.initialPermissions
      mapping.maximumPermissions (files mapping.sourcePath) mapping.fileOffset.toNat
      (mapping.label index)
    mapFiles files (index + 1) mappings

/-- The lazy transform of a mapping, if it has slide info. -/
def installSlide (mapping : SharedCacheMapping) : Access Unit :=
  if mapping.slideInfo = [] then pure ()
  else
    match parseSlideInfo2 mapping.slideInfo mapping.size.toNat with
    | .error message => fail message
    | .ok (info, _) =>
      installLazyFilePageTransform mapping.slidAddress.toNat info.pageSize
        (some (applySlideInfo2Page mapping.slideInfo info slide))

/-- The second loop. -/
def installSlides : List SharedCacheMapping → Access Unit
  | [] => pure ()
  | mapping :: mappings => do
    installSlide mapping
    installSlides mappings

/-- The bytes of the canonical path. -/
def HostIdentity.pathBytes (identity : HostIdentity) : List Byte :=
  identity.canonicalPath.toUTF8.toList.map UInt8.toBitVec

/-- `dynamicRegionStructureSize`. -/
def dynamicRegionStructureSize : Nat := 80

/-- The dynamic data : the magic, the identity of the file and its path. -/
def dynamicData (identity : HostIdentity) : Nat → Byte :=
  [(0, ascii "dyld_data    v3"), (16, littleEndian 4 identity.device),
    (20, littleEndian 4 (0 : BitVec 32)), (24, littleEndian 8 identity.inode),
    (32, littleEndian 4 (0 : BitVec 32)),
    (36, littleEndian 4 (BitVec.ofNat 32 dynamicRegionStructureSize)),
    (dynamicRegionStructureSize, identity.pathBytes)].foldl
      (fun contents field => overwrite contents field.1 field.2) fun _ => 0

/-- The mapping of the dynamic data, if the cache reserves some. -/
def mapDynamicData (cache : GuestSharedCache) : Access Unit :=
  if cache.dynamicDataSize = 0 then pure ()
  else do
    AddressSpace.failIf (cache.dynamicDataSize.toNat - dynamicRegionStructureSize <
      cache.identity.pathBytes.length + 1) "guest shared-cache path exceeds dynamic-data page"
    mapSegment cache.dynamicDataAddress.toNat cache.dynamicDataSize.toNat { read := true }
      { read := true } (bytesAt (dynamicData cache.identity) 0 cache.dynamicDataSize.toNat)
      "dyld-cache:dynamic-data"

/-- `mapInto`; `files` is what the host answers when the files are mapped. -/
def mapInto (cache : GuestSharedCache) (files : String → AddressSpace.HostFile) : Access Unit := do
  mapFiles files 0 cache.mappings
  installSlides cache.mappings
  mapDynamicData cache

/-! ## The bytes of the cache -/

section

variable (files : String → AddressSpace.HostFile) (mapping : SharedCacheMapping)

/-- The bytes of the file from the mapping on. -/
def SharedCacheMapping.fileByte (offset : Nat) : Byte :=
  (files mapping.sourcePath).contents (mapping.fileOffset.toNat + offset)

/-- What the slide info makes of a page : the bytes of the mapping, and the message of a chain
that is broken. -/
def SharedCacheMapping.slidPage (page : Nat) : (Nat → Byte) × Option String :=
  match parseSlideInfo2 mapping.slideInfo mapping.size.toNat with
  | .error _ => (mapping.fileByte files, none)
  | .ok (info, _) =>
    applySlideInfo2Page mapping.slideInfo info slide mapping.size.toNat
      (mapping.fileByte files) page

/-- The chains of the page of an offset are whole. -/
def SharedCacheMapping.Slides (offset : Nat) : Prop :=
  (mapping.slidPage files (offset / guestPageSize)).2 = none

/-- The byte that the guest sees at an offset. -/
def SharedCacheMapping.slidByte (offset : Nat) : Byte :=
  (mapping.slidPage files (offset / guestPageSize)).1 offset

end

/-- The host can map the files that it could open, and they have the same bytes. -/
def Maps (host : CacheHost) (files : String → AddressSpace.HostFile) : Prop :=
  ∀ path file, host.file path = .ok file → (files path).openError = none ∧
    (files path).inspectError = none ∧ (files path).mapError = none ∧ 0 < (files path).pageSize ∧
    (files path).size = file.size ∧ (files path).contents = file.bytes

/-! ## What is mapped -/

section

variable {files : String → AddressSpace.HostFile} {mapping : SharedCacheMapping}
  {s s' before : AddressSpace} {m : Mapping}

/-- The mapping of the space that shows a mapping of the cache. -/
structure Piece (files : String → AddressSpace.HostFile) (mapping : SharedCacheMapping)
    (s : AddressSpace) (m : Mapping) : Prop where
  base : m.base = mapping.address.toNat
  size : m.size = mapping.size.toNat
  permissions : m.permissions = mapping.initialPermissions
  maximumPermissions : m.maximumPermissions = mapping.maximumPermissions
  plain : m.readableBytes.size = 0
  file : ∃ f < s.fileCount, m.fileBytes = some f ∧ ∀ o < mapping.size.toNat,
    (s.files f).data (m.fileDataOffset + o) = mapping.fileByte files o

/-- The lazy transform of the piece. -/
structure HasSlide (mapping : SharedCacheMapping) (s : AddressSpace) (m : Mapping) : Prop where
  none : mapping.slideInfo = [] → m.lazyFileTransform = none
  some : mapping.slideInfo ≠ [] → ∃ t < s.transformCount, ∃ info extras,
    parseSlideInfo2 mapping.slideInfo mapping.size.toNat = .ok (info, extras) ∧
    m.lazyFileTransform = some t ∧ s.transforms t = ⟨m.fileDataOffset, m.size, info.pageSize,
      fun _ => false, applySlideInfo2Page mapping.slideInfo info slide⟩

theorem Piece.frame (h : Piece files mapping s m)
    (hfiles : ∀ f < s.fileCount, s'.files f = s.files f) (hcount : s.fileCount ≤ s'.fileCount) :
    Piece files mapping s' m := by
  obtain ⟨f, hf, hbytes, hdata⟩ := h.file
  refine { h with file := ⟨f, by omega, hbytes, fun o ho => ?_⟩ }
  rw [hfiles f hf]
  exact hdata o ho

theorem HasSlide.frame (h : HasSlide mapping s m)
    (htransforms : ∀ t < s.transformCount, s'.transforms t = s.transforms t)
    (hcount : s.transformCount ≤ s'.transformCount) : HasSlide mapping s' m := by
  refine ⟨h.none, fun hne => ?_⟩
  obtain ⟨t, ht, info, extras, hparse, hlazy, htransform⟩ := h.some hne
  exact ⟨t, by omega, info, extras, hparse, hlazy, (htransforms t ht).trans htransform⟩

/-- The space in the course of `mapInto` : the `waiting` mappings are there without a lazy
transform, the `done` ones with the one they need, and the others are as they were `before`. -/
structure Loaded (files : String → AddressSpace.HostFile) (before : AddressSpace)
    (waiting done : List SharedCacheMapping) (s : AddressSpace) : Prop where
  regular : Regular s
  kept : ∀ m ∈ before.mappings, m ∈ s.mappings
  sameFiles : ∀ f < before.fileCount, s.files f = before.files f
  sameTransforms : ∀ t < before.transformCount, s.transforms t = before.transforms t
  counts : before.fileCount ≤ s.fileCount ∧ before.transformCount ≤ s.transformCount
  plain : ∀ mapping ∈ waiting, ∃ m ∈ s.mappings,
    Piece files mapping s m ∧ m.lazyFileTransform = none
  slid : ∀ mapping ∈ done, ∃ m ∈ s.mappings, Piece files mapping s m ∧ HasSlide mapping s m
  only : ∀ m ∈ s.mappings, m ∈ before.mappings ∨ ∃ mapping : SharedCacheMapping,
    (mapping ∈ waiting ∨ mapping ∈ done) ∧ m.base = mapping.address.toNat ∧
    m.size = mapping.size.toNat

theorem Loaded.start (hr : Regular before) : Loaded files before [] [] before where
  regular := hr
  kept _ hm := hm
  sameFiles _ _ := rfl
  sameTransforms _ _ := rfl
  counts := ⟨le_refl _, le_refl _⟩
  plain _ hmem := absurd hmem List.not_mem_nil
  slid _ hmem := absurd hmem List.not_mem_nil
  only _ hm := .inl hm

/-- The mapping is apart from those that were there before. -/
def Free (before : AddressSpace) (mapping : SharedCacheMapping) : Prop :=
  ∀ m ∈ before.mappings, m.base + m.size ≤ mapping.address.toNat ∨
    mapping.address.toNat + mapping.size.toNat ≤ m.base

theorem slidAddress_eq (mapping : SharedCacheMapping) : mapping.slidAddress = mapping.address :=
  BitVec.add_zero _

/-! ## The file mappings -/

variable {host : CacheHost} {waiting done : List SharedCacheMapping}

theorem Loaded.fits (h : Loaded files before waiting [] s) (hplaced : mapping.Placed host)
    (hfree : Free before mapping) (hapart : ∀ other ∈ waiting, other.Before mapping) :
    Fits s mapping.address.toNat mapping.size.toNat mapping.initialPermissions
      mapping.maximumPermissions where
  nonempty := hplaced.nonempty
  baseAligned := hplaced.aligned.1
  sizeAligned := hplaced.aligned.2.1
  below := hplaced.below
  within := hplaced.permitted
  free m hm := by
    rcases h.only m hm with hold | ⟨other, hother, hbase, hsize⟩
    · exact hfree m hold
    · have hbefore := hapart other (hother.resolve_right List.not_mem_nil)
      unfold SharedCacheMapping.Before at hbefore
      omega

theorem Loaded.mapped (h : Loaded files before waiting [] s) (hmaps : Maps host files)
    (hplaced : mapping.Placed host) (hfree : Free before mapping)
    (hapart : ∀ other ∈ waiting, other.Before mapping) (label : String) :
    ∃ s', mapFileSegment mapping.slidAddress.toNat mapping.size.toNat mapping.initialPermissions
        mapping.maximumPermissions (files mapping.sourcePath) mapping.fileOffset.toNat label s =
          (.ok (), s') ∧
      Loaded files before (waiting ++ [mapping]) [] s' := by
  obtain ⟨file, hfile, hinside⟩ := hplaced.inFile
  obtain ⟨hopen, hinspect, hmap, hpage, hsize, hcontents⟩ := hmaps _ _ hfile
  have hsmall := file.small
  have hlength : (files mapping.sourcePath).size.toNat = file.size := by omega
  have hfits := h.fits hplaced hfree hapart
  have hrun := Fits.mapFileSegment_eq h.regular.inv mapping.fileOffset.toNat label hfits hopen
    hinspect hmap hpage (by omega) (by omega)
  rw [slidAddress_eq]
  refine ⟨_, hrun, ?_⟩
  have hregular : Regular (s.after (.mapFileSegment mapping.address mapping.size
      mapping.initialPermissions mapping.maximumPermissions (files mapping.sourcePath)
      mapping.fileOffset label)) := h.regular.after trivial
  rw [after, Call.run, hrun] at hregular
  set m := fileMapping mapping.address.toNat mapping.size.toNat mapping.initialPermissions
    mapping.maximumPermissions (files mapping.sourcePath) mapping.fileOffset.toNat label s.fileCount
  set backing := fileBacking mapping.size.toNat (files mapping.sourcePath) mapping.fileOffset.toNat
  have hmem (a : Mapping) : a ∈ (inserted m (allocated backing s)).mappings ↔
      a = m ∨ a ∈ s.mappings := mem_insertIdx_lowerBound
  have hfiles : ∀ f < s.fileCount, (inserted m (allocated backing s)).files f = s.files f :=
    fun f hf => Function.update_of_ne (Nat.ne_of_lt hf) _ _
  have hcount : (inserted m (allocated backing s)).fileCount = s.fileCount + 1 := rfl
  have hpiece : Piece files mapping (inserted m (allocated backing s)) m := by
    refine ⟨rfl, rfl, rfl, rfl, rfl, s.fileCount, Nat.lt_succ_self _, rfl, fun o ho => ?_⟩
    have hdata : (inserted m (allocated backing s)).files s.fileCount = backing :=
      Function.update_self ..
    rw [hdata]
    exact fileBacking_data ho (by omega)
  exact
    { regular := hregular
      kept := fun a ha => (hmem a).mpr (.inr (h.kept a ha))
      sameFiles := fun f hf =>
        (hfiles f (Nat.lt_of_lt_of_le hf h.counts.1)).trans (h.sameFiles f hf)
      sameTransforms := h.sameTransforms
      counts := ⟨Nat.le_succ_of_le h.counts.1, h.counts.2⟩
      plain := fun other hother => by
        rcases List.mem_append.mp hother with hother | hother
        · obtain ⟨a, ha, hold, hlazy⟩ := h.plain other hother
          exact ⟨a, (hmem a).mpr (.inr ha), hold.frame hfiles (by omega), hlazy⟩
        · rw [List.mem_singleton.mp hother]
          exact ⟨m, (hmem m).mpr (.inl rfl), hpiece, rfl⟩
      slid := fun other hother => absurd hother List.not_mem_nil
      only := fun a ha => by
        rcases (hmem a).mp ha with rfl | ha
        · exact .inr ⟨mapping, .inl (by simp), rfl, rfl⟩
        · rcases h.only a ha with hold | ⟨other, hother, hbase⟩
          · exact .inl hold
          · exact .inr ⟨other, hother.imp_left (List.mem_append_left _), hbase⟩ }

/-- The first loop. -/
theorem mapFiles_loads (hmaps : Maps host files) :
    ∀ {mappings waiting : List SharedCacheMapping} (index : Nat) {s : AddressSpace},
      Loaded files before waiting [] s → (∀ mapping ∈ mappings, mapping.Placed host) →
      (∀ mapping ∈ mappings, Free before mapping) →
      (waiting ++ mappings).Pairwise SharedCacheMapping.Before →
      ∃ s', mapFiles files index mappings s = (.ok (), s') ∧
        Loaded files before (waiting ++ mappings) [] s'
  | [], waiting, _, s, h, _, _, _ => ⟨s, rfl, by rwa [List.append_nil]⟩
  | mapping :: mappings, waiting, index, s, h, hplaced, hfree, hapart => by
    have hbefore (other : SharedCacheMapping) (hother : other ∈ waiting) : other.Before mapping :=
      (List.pairwise_append.mp hapart).2.2 other hother mapping List.mem_cons_self
    obtain ⟨s1, hrun, h1⟩ := h.mapped hmaps (hplaced mapping List.mem_cons_self)
      (hfree mapping List.mem_cons_self) hbefore (mapping.label index)
    rw [List.append_cons] at hapart ⊢
    obtain ⟨s2, hrest, h2⟩ := mapFiles_loads hmaps (index + 1) h1
      (fun other hother => hplaced other (List.mem_cons_of_mem _ hother))
      (fun other hother => hfree other (List.mem_cons_of_mem _ hother)) hapart
    exact ⟨s2, by rw [mapFiles, bind_ok hrun, hrest], h2⟩

/-! ## The lazy transforms -/

theorem mem_set_of_ne {ms : List Mapping} {i : Nat} {a b c : Mapping} (ha : ms[i]? = some a)
    (hc : c ∈ ms) (hne : c ≠ a) : c ∈ ms.set i b := by
  obtain ⟨j, hj⟩ := List.getElem?_of_mem hc
  have hij : i ≠ j := by
    rintro rfl
    exact hne (Option.some.inj (hj.symm.trans ha))
  exact List.mem_of_getElem? ((List.getElem?_set_ne hij).trans hj)

/-- Mappings of a space with one base are the same. -/
theorem eq_of_base (hi : Inv s) {a b : Mapping} (ha : a ∈ s.mappings) (hb : b ∈ s.mappings)
    (hbase : a.base = b.base) : a = b := by
  have h := getElem?_lowerBound hi ha
  rw [hbase, getElem?_lowerBound hi hb] at h
  exact (Option.some.inj h).symm

/-- A mapping of the cache that was handled is done. -/
theorem Loaded.finish (h : Loaded files before (mapping :: waiting) done s)
    (hpiece : ∃ m ∈ s.mappings, Piece files mapping s m ∧ HasSlide mapping s m) :
    Loaded files before waiting (done ++ [mapping]) s where
  regular := h.regular
  kept := h.kept
  sameFiles := h.sameFiles
  sameTransforms := h.sameTransforms
  counts := h.counts
  plain other hother := h.plain other (List.mem_cons_of_mem _ hother)
  slid other hother := by
    rcases List.mem_append.mp hother with hother | hother
    · exact h.slid other hother
    · rw [List.mem_singleton.mp hother]
      exact hpiece
  only m hm := by
    refine (h.only m hm).imp_right fun ⟨other, hother, hbase⟩ => ⟨other, ?_, hbase⟩
    rcases hother with hother | hother
    · rcases List.mem_cons.mp hother with rfl | hother
      · exact .inr (by simp)
      · exact .inl hother
    · exact .inr (List.mem_append_left _ hother)

/-- The space after the transform of a piece was installed. -/
theorem Loaded.installed (h : Loaded files before (mapping :: waiting) done s)
    (hplaced : mapping.Placed host) (hfree : Free before mapping)
    (hapart : ∀ other, other ∈ waiting ∨ other ∈ done →
      other.address.toNat ≠ mapping.address.toNat)
    (hpiece : Piece files mapping s m) {info : SlideInfo2} {extras : BitVec 32}
    (hparse : parseSlideInfo2 mapping.slideInfo mapping.size.toNat = .ok (info, extras))
    (hinfo : mapping.slideInfo ≠ []) (hregular : Regular s')
    (hinstalled : Installed s (lowerBound s.mappings m.base) info.pageSize m
      (applySlideInfo2Page mapping.slideInfo info slide) s') :
    Loaded files before waiting (done ++ [mapping]) s' := by
  have hindex := hinstalled.index
  obtain rfl := hinstalled.space
  set m' : Mapping := { m with lazyFileTransform := some s.transformCount }
  have hother (a : Mapping) (ha : a ∈ s.mappings) (hbase : a.base ≠ m.base) :
      a ∈ s.mappings.set (lowerBound s.mappings m.base) m' :=
    mem_set_of_ne hindex ha fun heq => hbase (congrArg Mapping.base heq)
  have hself : m' ∈ s.mappings.set (lowerBound s.mappings m.base) m' := by
    obtain ⟨hlt, -⟩ := List.getElem?_eq_some_iff.mp hindex
    exact List.mem_of_getElem? (List.getElem?_set_self hlt)
  have htransforms : ∀ t < s.transformCount, Function.update s.transforms s.transformCount
      ⟨m.fileDataOffset, m.size, info.pageSize, fun _ => false,
        applySlideInfo2Page mapping.slideInfo info slide⟩ t = s.transforms t :=
    fun t ht => Function.update_of_ne (Nat.ne_of_lt ht) _ _
  have hne (other : SharedCacheMapping) (hmem : other ∈ waiting ∨ other ∈ done) {a : Mapping}
      (ha : a.base = other.address.toNat) : a.base ≠ m.base := by
    rw [ha, hpiece.base]
    exact hapart other hmem
  exact
    { regular := hregular
      kept := fun a ha => by
        refine hother a (h.kept a ha) fun hbase => ?_
        have hpos := (h.regular.inv.placed a (h.kept a ha)).nonempty
        have hsize := hplaced.nonempty
        have hdisjoint := hfree a ha
        rw [hbase, hpiece.base] at hdisjoint
        omega
      sameFiles := h.sameFiles
      sameTransforms := fun t ht =>
        (htransforms t (Nat.lt_of_lt_of_le ht h.counts.2)).trans (h.sameTransforms t ht)
      counts := ⟨h.counts.1, Nat.le_succ_of_le h.counts.2⟩
      plain := fun other hmem => by
        obtain ⟨a, ha, hold, hlazy⟩ := h.plain other (List.mem_cons_of_mem _ hmem)
        exact ⟨a, hother a ha (hne other (.inl hmem) hold.base),
          hold.frame (fun _ _ => rfl) (le_refl _), hlazy⟩
      slid := fun other hmem => by
        rcases List.mem_append.mp hmem with hmem | hmem
        · obtain ⟨a, ha, hold, hslide⟩ := h.slid other hmem
          exact ⟨a, hother a ha (hne other (.inr hmem) hold.base),
            hold.frame (fun _ _ => rfl) (le_refl _), hslide.frame htransforms (Nat.le_succ _)⟩
        · rw [List.mem_singleton.mp hmem]
          refine ⟨m', hself, ⟨hpiece.base, hpiece.size, hpiece.permissions,
            hpiece.maximumPermissions, hpiece.plain, hpiece.file⟩, fun hnone => absurd hnone hinfo,
            fun _ => ⟨s.transformCount, Nat.lt_succ_self _, info, extras, hparse, rfl, ?_⟩⟩
          exact Function.update_self ..
      only := fun a ha => by
        rcases List.mem_or_eq_of_mem_set ha with ha | rfl
        · refine (h.only a ha).imp_right fun ⟨other, hmem, hbase⟩ => ⟨other, ?_, hbase⟩
          simpa [or_assoc, or_comm, or_left_comm] using hmem
        · exact .inr ⟨mapping, .inr (by simp), hpiece.base, hpiece.size⟩ }

/-- The lazy transform of the next mapping. -/
theorem Loaded.slides (h : Loaded files before (mapping :: waiting) done s)
    (hplaced : mapping.Placed host) (hfree : Free before mapping)
    (hapart : ∀ other, other ∈ waiting ∨ other ∈ done →
      other.address.toNat ≠ mapping.address.toNat) :
    ∃ s', installSlide mapping s = (.ok (), s') ∧
      Loaded files before waiting (done ++ [mapping]) s' := by
  obtain ⟨m, hm, hpiece, hlazy⟩ := h.plain mapping List.mem_cons_self
  unfold installSlide
  split
  · next hinfo =>
    exact ⟨s, rfl, h.finish ⟨m, hm, hpiece, fun _ => hlazy, fun hne => absurd hinfo hne⟩⟩
  · next hinfo =>
    obtain ⟨⟨info, extras⟩, hparse⟩ := hplaced.slides hinfo
    rw [hparse]
    dsimp only
    obtain ⟨f, -, hfile, -⟩ := hpiece.file
    have hgeometry : m.size % info.pageSize = 0 := by
      rw [hpiece.size, info.geometry]
      exact hplaced.aligned.2.1
    have hpage : 0 < info.pageSize := by
      rw [info.geometry]
      decide
    obtain ⟨s', hrun, hinstalled⟩ := installLazyFilePageTransform_eq h.regular.inv hm
      (applySlideInfo2Page mapping.slideInfo info slide)
      (Option.isSome_iff_exists.mpr ⟨f, hfile⟩) hpage hgeometry
    rw [hpiece.base, ← slidAddress_eq] at hrun
    refine ⟨s', hrun, h.installed hplaced hfree hapart hpiece hparse hinfo ?_ hinstalled⟩
    have hsize : (BitVec.ofNat 64 info.pageSize).toNat = info.pageSize := by
      rw [info.geometry]
      rfl
    have hlocal : (Call.installLazyFilePageTransform mapping.slidAddress
        (BitVec.ofNat 64 info.pageSize)
        (some (applySlideInfo2Page mapping.slideInfo info slide))).StaysRegular s := by
      intro a ha hbase
      rw [slidAddress_eq, ← hpiece.base] at hbase
      obtain rfl := eq_of_base h.regular.inv ha hm hbase
      rw [hsize]
      exact ⟨hlazy, pageLocal_applySlideInfo2Page ..⟩
    have hregular := h.regular.after hlocal
    rw [after, Call.run, hsize, hrun] at hregular
    exact hregular

/-- The second loop. -/
theorem installSlides_loads :
    ∀ {waiting done : List SharedCacheMapping} {s : AddressSpace},
      Loaded files before waiting done s →
      (∀ mapping ∈ done ++ waiting, mapping.Placed host) →
      (∀ mapping ∈ waiting, Free before mapping) →
      (done ++ waiting).Pairwise SharedCacheMapping.Before →
      ∃ s', installSlides waiting s = (.ok (), s') ∧
        Loaded files before [] (done ++ waiting) s'
  | [], done, s, h, _, _, _ => ⟨s, rfl, by rwa [List.append_nil]⟩
  | mapping :: waiting, done, s, h, hplaced, hfree, hapart => by
    obtain ⟨-, hafter, hbefore⟩ := List.pairwise_append.mp hapart
    have hmapping := hplaced mapping (by simp)
    have hne (other : SharedCacheMapping) (hmem : other ∈ waiting ∨ other ∈ done) :
        other.address.toNat ≠ mapping.address.toNat := by
      have hpos := hmapping.nonempty
      rcases hmem with hmem | hmem
      · have hle : mapping.Before other := (List.pairwise_cons.mp hafter).1 other hmem
        unfold SharedCacheMapping.Before at hle
        omega
      · have hle : other.Before mapping := hbefore other hmem mapping List.mem_cons_self
        have := (hplaced other (List.mem_append_left _ hmem)).nonempty
        unfold SharedCacheMapping.Before at hle
        omega
    obtain ⟨s1, hrun, h1⟩ := h.slides hmapping (hfree mapping List.mem_cons_self) hne
    rw [List.append_cons] at hapart hplaced ⊢
    obtain ⟨s2, hrest, h2⟩ := installSlides_loads h1 hplaced
      (fun other hmem => hfree other (List.mem_cons_of_mem _ hmem)) hapart
    exact ⟨s2, by rw [installSlides, bind_ok hrun, hrest], h2⟩

/-! ## What the guest sees -/

/-- The callback on the piece and on the bytes of the file. -/
theorem Piece.samePage (h : Piece files mapping s m) {f : FileId} (hfile : m.fileBytes = some f)
    {info : SlideInfo2} {extras : BitVec 32}
    (hparse : parseSlideInfo2 mapping.slideInfo mapping.size.toNat = .ok (info, extras))
    (page : Nat) :
    SamePage info.pageSize mapping.size.toNat page
      (fun i => (s.files f).data (m.fileDataOffset + i))
      (applySlideInfo2Page mapping.slideInfo info slide mapping.size.toNat
        (fun i => (s.files f).data (m.fileDataOffset + i)) page)
      (mapping.slidPage files page) := by
  obtain ⟨f', -, hfile', hdata⟩ := h.file
  obtain rfl := Option.some.inj (hfile.symm.trans hfile')
  have hslid : mapping.slidPage files page = applySlideInfo2Page mapping.slideInfo info slide
      mapping.size.toNat (mapping.fileByte files) page := by
    rw [SharedCacheMapping.slidPage, hparse]
  rw [hslid]
  exact applySlideInfo2Page_samePage _ _ _ _ _ fun i hi _ => hdata i hi

/-- Without slide info the page is as it is in the file. -/
theorem slidPage_nil (hinfo : mapping.slideInfo = []) (page : Nat) :
    mapping.slidPage files page = (mapping.fileByte files, none) := by
  have hparse : parseSlideInfo2 mapping.slideInfo mapping.size.toNat =
      .error "x86_64 dyld shared cache requires slide-info version 2" := by
    rw [hinfo, parseSlideInfo2, if_pos (.inl (by decide))]
  rw [SharedCacheMapping.slidPage, hparse]

/-- The first use of a page of the piece throws exactly if a chain of the page is broken. -/
theorem Piece.pageFails_iff (h : Piece files mapping s m) (hslide : HasSlide mapping s m)
    (o : Nat) : s.pageFails m o = false ↔ mapping.Slides files o := by
  obtain ⟨f, -, hfile, -⟩ := h.file
  by_cases hinfo : mapping.slideInfo = []
  · have hfails : s.pageFails m o = false := by
      rw [pageFails, hfile, hslide.none hinfo]
    exact iff_of_true hfails (by rw [SharedCacheMapping.Slides, slidPage_nil hinfo])
  · obtain ⟨t, -, info, extras, hparse, hlazy, htransform⟩ := hslide.some hinfo
    have hsame := h.samePage hfile hparse (o / guestPageSize)
    rw [SharedCacheMapping.Slides, ← hsame.result]
    simp only [pageFails, hfile, hlazy, fails, htransform, transformPage,
      LazyFilePageTransform.filePage, Nat.add_sub_cancel_left, info.geometry, h.size,
      Bool.not_false, Bool.true_and, Option.isSome_eq_false_iff, Option.isNone_iff_eq_none]

/-- The piece shows the bytes of the file, with the pointers of whole chains rebased. -/
theorem Piece.shownByte_eq (h : Piece files mapping s m) (hslide : HasSlide mapping s m) {o : Nat}
    (ho : o < mapping.size.toNat) (hslides : mapping.Slides files o) :
    s.settled.shownByte m o = mapping.slidByte files o := by
  obtain ⟨f, -, hfile, hdata⟩ := h.file
  by_cases hinfo : mapping.slideInfo = []
  · rw [SharedCacheMapping.slidByte, slidPage_nil hinfo]
    simp only [shownByte, hfile, hslide.none hinfo, contents]
    exact hdata o ho
  · obtain ⟨t, -, info, extras, hparse, hlazy, htransform⟩ := hslide.some hinfo
    have hsame := h.samePage hfile hparse (o / guestPageSize)
    rw [SharedCacheMapping.Slides, ← hsame.result] at hslides
    have hbyte := hsame.inside o ho (by rw [info.geometry])
    have hinside : (decide (m.fileDataOffset ≤ m.fileDataOffset + o) &&
        decide (m.fileDataOffset + o < m.fileDataOffset + mapping.size.toNat)) = true := by
      simpa using ho
    rw [SharedCacheMapping.slidByte, ← hbyte]
    simp only [shownByte, hfile, hlazy, settled, shown, htransform, LazyFilePageTransform.cleaned,
      cond_false, transformPage, cleanedTransform, LazyFilePageTransform.filePage,
      Nat.add_sub_cancel_left, info.geometry, h.size, hslides, hinside, Option.isSome_none,
      Bool.false_eq_true, if_false, if_true]

/-! ## The dynamic data -/

variable {cache : GuestSharedCache}

/-- The dynamic data are put on a page and have room for the path, if there are some. -/
def DynamicFits (cache : GuestSharedCache) : Prop :=
  cache.dynamicDataSize ≠ 0 → cache.dynamicDataAddress.toNat % guestPageSize = 0 ∧
    cache.identity.pathBytes.length + 81 ≤ cache.dynamicDataSize.toNat

/-- The space after the dynamic data were mapped. -/
structure DynamicMapped (cache : GuestSharedCache) (s s' : AddressSpace) : Prop where
  regular : Regular s'
  kept : ∀ m ∈ s.mappings, m ∈ s'.mappings
  sameFiles : s'.files = s.files
  sameTransforms : s'.transforms = s.transforms
  fileCount : s'.fileCount = s.fileCount
  transformCount : s'.transformCount = s.transformCount
  only : ∀ m ∈ s'.mappings, m ∈ s.mappings ∨ cache.dynamicDataSize ≠ 0 ∧
    m.base = cache.dynamicDataAddress.toNat ∧ m.size = cache.dynamicDataSize.toNat
  shown : cache.dynamicDataSize ≠ 0 → ∃ m ∈ s'.mappings,
    m.base = cache.dynamicDataAddress.toNat ∧ m.size = cache.dynamicDataSize.toNat ∧
    m.permissions = { read := true } ∧ m.maximumPermissions = { read := true } ∧
    ∀ o < m.size, s'.settled.shownByte m o = dynamicData cache.identity o

/-- The dynamic data fit into a space. -/
theorem mapDynamicData_maps (hr : Regular s)
    (hfits : cache.dynamicDataSize ≠ 0 → Fits s cache.dynamicDataAddress.toNat
      cache.dynamicDataSize.toNat { read := true } { read := true })
    (hroom : cache.DynamicFits) :
    ∃ s', mapDynamicData cache s = (.ok (), s') ∧ DynamicMapped cache s s' := by
  by_cases hzero : cache.dynamicDataSize = 0
  · exact ⟨s, by rw [mapDynamicData, if_pos hzero]; rfl, hr, fun _ hm => hm, rfl, rfl, rfl, rfl,
      fun _ hm => .inl hm, fun hne => absurd hzero hne⟩
  · have hlength : (bytesAt (dynamicData cache.identity) 0 cache.dynamicDataSize.toNat).length =
        cache.dynamicDataSize.toNat := by
      simp [bytesAt]
    have hpath := (hroom hzero).2
    have hrun := Fits.mapSegment_eq hr.inv "dyld-cache:dynamic-data" (hfits hzero)
      (le_of_eq hlength)
    have hregular : Regular (s.after (.mapSegment cache.dynamicDataAddress cache.dynamicDataSize
        { read := true } { read := true }
        (bytesAt (dynamicData cache.identity) 0 cache.dynamicDataSize.toNat)
        "dyld-cache:dynamic-data")) := hr.after trivial
    rw [after, Call.run, hrun] at hregular
    refine ⟨_, ?_, hregular, fun m hm => mem_insertIdx_lowerBound.mpr (.inr hm), rfl, rfl, rfl,
      rfl, fun m hm => ?_, fun _ => ⟨_, mem_insertIdx_lowerBound.mpr (.inl rfl), rfl, rfl, rfl, rfl,
        fun o ho => ?_⟩⟩
    · rw [mapDynamicData, if_neg hzero, failIf_bind_eq, hrun]
      rw [decide_eq_false_iff_not, dynamicRegionStructureSize]
      omega
    · rcases mem_insertIdx_lowerBound.mp hm with rfl | hm
      · exact .inr ⟨hzero, rfl, rfl⟩
      · exact .inl hm
    · have hdata : (bytesAt (dynamicData cache.identity) 0 cache.dynamicDataSize.toNat).getD o 0 =
          dynamicData cache.identity o := by
        have ho' : o < cache.dynamicDataSize.toNat := ho
        simp [bytesAt, List.getD_eq_getElem?_getD, ho']
      exact hdata

/-- Dynamic data that were mapped had room. -/
theorem mapDynamicData_fits (hi : Inv s) :
    Post (mapDynamicData cache) s (fun _ _ => cache.DynamicFits) fun _ _ => True := by
  unfold mapDynamicData
  split
  · next hzero => exact Post.pure fun hne => absurd hzero hne
  · unfold AddressSpace.failIf mapSegment addMapping AddressSpace.failIf
    refine Post.bind (Post.raiseIf (fun _ => trivial) fun hpath => ?_)
    refine Post.bind (Post.raiseIf (fun _ => trivial) fun _ => ?_)
    refine Post.bind (Post.mono (validateNewMapping_spec hi cache.dynamicDataSize.isLt _ _) ?_
      fun _ _ _ => trivial)
    rintro _ _ ⟨-, hfits⟩
    rw [decide_eq_false_iff_not, dynamicRegionStructureSize] at hpath
    unfold Post
    split
    · exact fun _ => ⟨hfits.baseAligned, by omega⟩
    · trivial

/-! ## The mapped cache -/

/-- What `mapInto` makes of a space that shows `memory`. -/
structure MappedInto (cache : GuestSharedCache) (files : String → AddressSpace.HostFile)
    (memory : Nat → Byte) (s s' : AddressSpace) : Prop where
  /-- Nothing that was there before is touched. -/
  kept : ∀ m ∈ s.mappings, m ∈ s'.mappings
  /-- What is new is in the shared region. -/
  only : ∀ m ∈ s'.mappings, m ∈ s.mappings ∨ cache.regionStart.toNat ≤ m.base ∧
    m.base + m.size ≤ cache.regionStart.toNat + cache.regionSize.toNat
  /-- Every mapping of the cache is there, with its permissions. -/
  pieces : ∀ mapping ∈ cache.mappings, ∃ m ∈ s'.mappings, Piece files mapping s' m
  /-- The dynamic data may be read only. -/
  dynamic : cache.dynamicDataSize ≠ 0 → ∃ m ∈ s'.mappings,
    m.base = cache.dynamicDataAddress.toNat ∧ m.size = cache.dynamicDataSize.toNat ∧
    m.permissions = { read := true } ∧ m.maximumPermissions = { read := true }
  /-- The bytes. -/
  shown : ∃ memory', Shown memory' s' ∧
    (∀ m ∈ s.mappings, ∀ o < m.size, memory' (m.base + o) = memory (m.base + o)) ∧
    (∀ mapping ∈ cache.mappings, ∀ o < mapping.size.toNat, mapping.Slides files o →
      memory' (mapping.address.toNat + o) = mapping.slidByte files o) ∧
    ∀ o < cache.dynamicDataSize.toNat,
      memory' (cache.dynamicDataAddress.toNat + o) = dynamicData cache.identity o
  /-- A read of a readable mapping is refused exactly if a chain of its pages is broken. -/
  reads : ∀ mapping ∈ cache.mappings, mapping.initialPermissions.read = true →
    ∀ offset size, offset + size ≤ mapping.size.toNat →
      ((∀ k < size, mapping.Slides files (offset + k)) →
        (readInto (mapping.address.toNat + offset) size s').1 =
          .ok ((List.range size).map fun k => mapping.slidByte files (offset + k))) ∧
      ((∃ k < size, ¬mapping.Slides files (offset + k)) →
        ∀ bytes, (readInto (mapping.address.toNat + offset) size s').1 ≠ .ok bytes)

/-- The loops over the mappings go through where the region is free. -/
theorem loops_load (hcache : WellFormed host cache) (hmaps : Maps host files) (hr : Regular s)
    (hfree : ∀ m ∈ s.mappings, m.base + m.size ≤ cache.regionStart.toNat ∨
      cache.regionStart.toNat + cache.regionSize.toNat ≤ m.base) :
    ∃ s1 s2, mapFiles files 0 cache.mappings s = (.ok (), s1) ∧
      installSlides cache.mappings s1 = (.ok (), s2) ∧
      Loaded files s [] cache.mappings s2 := by
  have hplaced := fun mapping hmem => (hcache.placed mapping hmem).1
  have hfree' : ∀ mapping ∈ cache.mappings, Free s mapping := by
    intro mapping hmem m hm
    have hregion := (hcache.placed mapping hmem).2
    have := hfree m hm
    omega
  obtain ⟨s1, hrun1, h1⟩ := mapFiles_loads hmaps 0 (.start hr) hplaced hfree' hcache.apart
  rw [List.nil_append] at h1
  obtain ⟨s2, hrun2, h2⟩ := installSlides_loads h1 hplaced hfree' hcache.apart
  exact ⟨s1, s2, hrun1, hrun2, h2⟩

theorem Loaded.dynamicFits (h : Loaded files before [] cache.mappings s)
    (hcache : WellFormed host cache)
    (hfree : ∀ m ∈ before.mappings, m.base + m.size ≤ cache.regionStart.toNat ∨
      cache.regionStart.toNat + cache.regionSize.toNat ≤ m.base)
    (hroom : cache.DynamicFits) (hne : cache.dynamicDataSize ≠ 0) :
    Fits s cache.dynamicDataAddress.toNat cache.dynamicDataSize.toNat { read := true }
      { read := true } := by
  obtain ⟨hlow, hhigh, hapart⟩ := hcache.dynamic hne
  obtain ⟨hlarge, hpages, -⟩ := hcache.reserved hne
  have hregion := hcache.region.2
  refine ⟨by omega, (hroom hne).1, hpages, by omega, by decide, fun m hm => ?_⟩
  rcases h.only m hm with hold | ⟨mapping, hmem, hbase, hsize⟩
  · have := hfree m hold
    omega
  · have := hapart mapping (hmem.resolve_left List.not_mem_nil)
    omega

/-- The piece of a mapping when the dynamic data are there too. -/
theorem DynamicMapped.piece (hd : DynamicMapped cache s s')
    (h : Loaded files before [] cache.mappings s) (hmem : mapping ∈ cache.mappings) :
    ∃ m ∈ s'.mappings, Piece files mapping s' m ∧ HasSlide mapping s' m := by
  obtain ⟨m, hm, hpiece, hslide⟩ := h.slid mapping hmem
  refine ⟨m, hd.kept m hm, hpiece.frame (fun f _ => ?_) (le_of_eq hd.fileCount.symm),
    hslide.frame (fun t _ => ?_) (le_of_eq hd.transformCount.symm)⟩
  · rw [hd.sameFiles]
  · rw [hd.sameTransforms]

/-- Mappings of a space that share an address are the same. -/
theorem eq_of_address (hi : Inv s) {a b : Mapping} (ha : a ∈ s.mappings) (hb : b ∈ s.mappings)
    {o k : Nat} (ho : o < a.size) (hk : k < b.size) (haddress : a.base + o = b.base + k) :
    a = b := by
  obtain ⟨i, hi'⟩ := List.getElem?_of_mem ha
  obtain ⟨j, hj⟩ := List.getElem?_of_mem hb
  obtain rfl := hi.sorted.unique hi' hj (by omega) (by omega)
  exact Option.some.inj (hi'.symm.trans hj)

/-- No page of a range of the piece fails exactly if the chains are whole. -/
theorem Piece.noneFails_iff (h : Piece files mapping s m) (hslide : HasSlide mapping s m)
    (hi : Inv s) (hm : m ∈ s.mappings) {offset size : Nat}
    (hinside : offset + size ≤ mapping.size.toNat) :
    NoneFails s (mapping.address.toNat + offset) size ↔
      ∀ k < size, mapping.Slides files (offset + k) := by
  have hbase := h.base
  have hsize := h.size
  constructor
  · intro hno k hk
    refine (h.pageFails_iff hslide _).mp (hno m hm (offset + k) (by omega) (by omega) (by omega))
  · intro hall a ha o ho hlow hhigh
    obtain rfl := eq_of_address hi ha hm ho
      (show a.base + o - m.base < m.size by omega) (by omega)
    refine (h.pageFails_iff hslide o).mpr ?_
    have := hall (o - offset) (by omega)
    rwa [Nat.add_sub_cancel' (by omega)] at this

theorem Piece.readableAt (h : Piece files mapping s m) (hm : m ∈ s.mappings)
    (hread : mapping.initialPermissions.read = true) {o : Nat} (ho : o < mapping.size.toNat) :
    s.ReadableAt (mapping.address.toNat + o) := by
  obtain ⟨i, hindex⟩ := List.getElem?_of_mem hm
  have hbase := h.base
  have hsize := h.size
  refine ⟨i, m, ⟨hindex, by omega, by omega, ?_⟩, .inl h.plain⟩
  rw [h.permissions, Permission.has, hread]
  rfl

/-- What the loops have loaded and the dynamic data are what the guest sees. -/
theorem Loaded.mappedInto {loaded : AddressSpace} {memory : Nat → Byte} (hs : Shown memory s)
    (hcache : WellFormed host cache) (h : Loaded files s [] cache.mappings loaded)
    (hd : DynamicMapped cache loaded s') : MappedInto cache files memory s s' := by
  obtain ⟨memory', hshown⟩ := hd.regular.exists_shown
  have hbytes : ∀ mapping ∈ cache.mappings, ∀ o < mapping.size.toNat, mapping.Slides files o →
      memory' (mapping.address.toNat + o) = mapping.slidByte files o := by
    intro mapping hmem o ho hslides
    obtain ⟨m, hm, hpiece, hslide⟩ := hd.piece h hmem
    rw [← hpiece.shownByte_eq hslide ho hslides, ← hpiece.base]
    exact (hshown.depicts m hm o (by rw [hpiece.size]; exact ho)).symm
  have hold : ∀ m ∈ s.mappings, ∀ o < m.size, memory' (m.base + o) = memory (m.base + o) := by
    intro m hm o ho
    have hshaped := hs.regular.inv.shaped m hm
    have hsame : SameBytes s.settled s'.settled m := by
      refine SameBytes.of_eq (fun f hf => ?_) fun t ht => ?_
      · exact (congrFun hd.sameFiles f).trans (h.sameFiles f (hshaped.file f hf).1)
      · have htransform : s'.transforms t = s.transforms t :=
          (congrFun hd.sameTransforms t).trans (h.sameTransforms t (hshaped.lazyTransform t ht).1)
        exact congrArg LazyFilePageTransform.cleaned htransform
    rw [← hshown.depicts m (hd.kept m (h.kept m hm)) o ho, ← hs.depicts m hm o ho]
    exact (hsame o ho).2
  exact
    { kept := fun m hm => hd.kept m (h.kept m hm)
      only := fun m hm => by
        rcases hd.only m hm with hm | ⟨hne, hbase, hsize⟩
        · refine (h.only m hm).imp_right fun ⟨mapping, hmem, hbase, hsize⟩ => ?_
          rw [hbase, hsize]
          exact (hcache.placed mapping (hmem.resolve_left List.not_mem_nil)).2
        · rw [hbase, hsize]
          exact .inr ⟨(hcache.dynamic hne).1, (hcache.dynamic hne).2.1⟩
      pieces := fun mapping hmem => by
        obtain ⟨m, hm, hpiece, -⟩ := hd.piece h hmem
        exact ⟨m, hm, hpiece⟩
      dynamic := fun hne => by
        obtain ⟨m, hm, hbase, hsize, hpermissions, hmaximum, -⟩ := hd.shown hne
        exact ⟨m, hm, hbase, hsize, hpermissions, hmaximum⟩
      shown := by
        refine ⟨memory', hshown, hold, hbytes, fun o ho => ?_⟩
        have hne : cache.dynamicDataSize ≠ 0 := by
          rintro hzero
          rw [hzero] at ho
          exact absurd ho (Nat.not_lt_zero o)
        obtain ⟨m, hm, hbase, hsize, -, -, hdata⟩ := hd.shown hne
        rw [← hbase, ← hshown.depicts m hm o (by omega)]
        exact hdata o (by omega)
      reads := fun mapping hmem hread offset size hinside => by
        obtain ⟨m, hm, hpiece, hslide⟩ := hd.piece h hmem
        have hno := hpiece.noneFails_iff hslide hd.regular.inv hm hinside
        refine ⟨fun hall => ?_, fun hbroken bytes hok => ?_⟩
        · rw [readInto_may hshown (hno.mpr hall) fun k hk => ?_]
          · congr 1
            refine List.map_congr_left fun k hk => ?_
            have hk := List.mem_range.mp hk
            rw [Nat.add_assoc]
            exact hbytes mapping hmem _ (by omega) (hall k hk)
          · rw [Nat.add_assoc]
            exact hpiece.readableAt hm hread (by omega)
        · obtain ⟨k, hk, hbroken⟩ := hbroken
          have hcan := (readInto_returns_iff hd.regular _ _).mp ⟨bytes, hok⟩
          exact hbroken (hno.mp (noneFails_iff.mpr fun k hk => (hcan k hk).2) k hk) }

end

/-- The answers of the host with one file. -/
def onePageFile (path : String) : AddressSpace.HostFile where
  path := path
  size := onePageCache.size
  contents := onePageCache.bytes

theorem maps_onePage : Maps onePageHost onePageFile := by
  intro path file hfile
  obtain rfl : onePageCache = file := Except.ok.inj hfile
  exact ⟨rfl, rfl, rfl, (by decide : (0 : Int) < 4096), rfl, rfl⟩

end Darwin.GuestSharedCache

end Rosa
