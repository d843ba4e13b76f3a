import Rosa.Guest.MappingBatch
import Rosa.Guest.WordReads
import Rosa.Macho.MachOFile

/-!
# Loading an image

`macho/Loader.cpp`. The requests for all segments are composed and checked before
`mapSegments` installs them together, so an image is there completely or not at all
(`parse_mapImage`). Sizes are rounded up to pages; what the file does not have of a segment
is zero. A segment that may never be accessed is a reservation, without bytes.
-/

namespace Rosa

namespace Macho

open AddressSpace Rosa.Computation

/-! ## The loader -/

/-- `LoadedImage`. -/
structure LoadedImage where
  loadAddress : Nat
  entryPoint : Nat
  slide : BitVec 64
  mappedSegments : Nat
  deriving DecidableEq, Repr

/-- `translatePermissions`. -/
def translatePermissions (machProtection : BitVec 32) : Permission where
  read := machProtection &&& 0x1 != 0
  write := machProtection &&& 0x2 != 0
  execute := machProtection &&& 0x4 != 0

/-- `slidAddress`. -/
def slidAddress (address : Nat) (slide : BitVec 64) : Access Nat := do
  AddressSpace.failIf (2 ^ 64 - 1 - slide.toNat < address)
    "Mach-O slide overflows a guest virtual address"
  pure (address + slide.toNat)

/-- A name as text. -/
def nameText (name : List Byte) : String :=
  String.ofList (name.map fun byte => Char.ofNat byte.toNat)

/-- The size of a segment in whole pages. -/
def roundedSize (virtualSize : Nat) : Nat :=
  (virtualSize + (guestPageSize - 1)) / guestPageSize * guestPageSize

/-- The bytes of the file in a segment. -/
def MachOFile.contents (file : MachOFile) (segment : Segment) : List Byte :=
  (file.bytes.drop segment.fileOffset).take segment.fileSize

/-- The request for a segment. -/
def segmentRequest (file : MachOFile) (imageName : String) (segment : Segment)
    (mappedAddress : Nat) : SegmentMapping where
  base := BitVec.ofNat 64 mappedAddress
  size := BitVec.ofNat 64 (roundedSize segment.virtualSize)
  permissions := translatePermissions segment.initialProtection
  maximumPermissions := translatePermissions segment.maximumProtection
  initialBytes := file.contents segment
  label := if imageName.isEmpty then nameText segment.name
    else imageName ++ ":" ++ nameText segment.name

/-- The loop over the segments : the requests, and where the header is loaded. -/
def composeRequests (file : MachOFile) (slide : BitVec 64) (imageName : String) :
    List Segment → List SegmentMapping → Option Nat → Access (List SegmentMapping × Option Nat)
  | [], mappings, loadAddress => pure (mappings, loadAddress)
  | segment :: segments, mappings, loadAddress => do
    if segment.virtualSize = 0 then
      composeRequests file slide imageName segments mappings loadAddress
    else
      AddressSpace.failIf (2 ^ 64 - 1 < segment.virtualSize)
        "Mach-O segment is too large for this host"
      AddressSpace.failIf (2 ^ 64 - 1 - (guestPageSize - 1) < segment.virtualSize)
        "Mach-O segment size overflows page rounding"
      let mappedAddress ← slidAddress segment.virtualAddress slide
      let mappings := mappings ++ [segmentRequest file imageName segment mappedAddress]
      if segment.fileOffset = 0 ∧ 32 ≤ segment.fileSize then
        AddressSpace.failIf loadAddress.isSome
          "Mach-O has multiple segments containing its header"
        composeRequests file slide imageName segments mappings (some mappedAddress)
      else composeRequests file slide imageName segments mappings loadAddress

/-- The entry point is in the request for an executable mapping. -/
def entryInside (entry : Nat) (mapping : SegmentMapping) : Bool :=
  mapping.permissions.has { execute := true } && mapping.base.toNat ≤ entry &&
    entry - mapping.base.toNat < mapping.size.toNat

/-- `entryPoint` in the loader. -/
def entryOf (file : MachOFile) : Access Nat :=
  match file.entryPoint with
  | .ok entry => pure entry
  | .error message => AddressSpace.fail message

/-- What `mapImage` does before it installs a mapping : the requests, and what it will return. -/
def preflight (file : MachOFile) (slide : BitVec 64) (imageName : String) :
    Access (List SegmentMapping × LoadedImage) := do
  let (mappings, loadAddress) ← composeRequests file slide imageName file.segments [] none
  AddressSpace.failIf loadAddress.isNone "Mach-O has no mapped segment containing its header"
  let unslid ← entryOf file
  let entry ← slidAddress unslid slide
  AddressSpace.failIf (!mappings.any (entryInside entry))
    "Mach-O entry point is not inside an executable segment"
  pure (mappings, ⟨loadAddress.getD 0, entry, slide, mappings.length⟩)

/-- `Loader::mapImage` of a file. -/
def mapImage (file : MachOFile) (slide : BitVec 64) (imageName : String) : Access LoadedImage := do
  let (mappings, image) ← preflight file slide imageName
  mapSegments mappings
  pure image

/-! ## The requests -/

variable {s s' : AddressSpace} {file : MachOFile} {slide : BitVec 64} {imageName : String}
  {segment : Segment} {α : Type}

theorem slidAddress_bind {address : Nat} {f : Nat → Access α} {Q : α → AddressSpace → Prop}
    (h : address + slide.toNat < 2 ^ 64 → Post (f (address + slide.toNat)) s Q (Refused s)) :
    Post (slidAddress address slide >>= f) s Q (Refused s) := by
  refine Post.bind (Post.failIf_bind fun hc => Post.pure (h ?_))
  have := slide.isLt
  simp only [decide_eq_false_iff_not, not_lt] at hc
  omega

/-- The request of a segment that is mapped, at its slid address. -/
def requestOf (file : MachOFile) (slide : BitVec 64) (imageName : String) (segment : Segment) :
    SegmentMapping :=
  segmentRequest file imageName segment (segment.virtualAddress + slide.toNat)

/-- The segments that are mapped. -/
def nonempty (segments : List Segment) : List Segment :=
  segments.filter fun segment => segment.virtualSize != 0

/-- The address of a segment does not wrap, nor its size in pages. -/
def Fitting (slide : BitVec 64) (segment : Segment) : Prop :=
  segment.virtualAddress + slide.toNat < 2 ^ 64 ∧
    segment.virtualSize + (guestPageSize - 1) < 2 ^ 64

theorem composeRequests_spec : ∀ {segments : List Segment} {mappings : List SegmentMapping}
    {loadAddress : Option Nat},
    Post (composeRequests file slide imageName segments mappings loadAddress) s
      (fun composed s' => s' = s ∧
        composed.1 = mappings ++ (nonempty segments).map (requestOf file slide imageName) ∧
        ∀ segment ∈ nonempty segments, Fitting slide segment)
      (Refused s)
  | [], mappings, loadAddress => ⟨rfl, by simp [nonempty], by simp [nonempty]⟩
  | segment :: segments, mappings, loadAddress => by
    unfold composeRequests
    split
    · next hempty =>
      have hskip : nonempty (segment :: segments) = nonempty segments := by simp [nonempty, hempty]
      rw [hskip]
      exact composeRequests_spec
    · next hne =>
      have hcons : nonempty (segment :: segments) = segment :: nonempty segments := by
        simp [nonempty, hne]
      refine Post.failIf_bind fun _ => Post.failIf_bind fun hround => ?_
      refine slidAddress_bind fun hslid => ?_
      simp only [decide_eq_false_iff_not, not_lt] at hround
      have hfitting : Fitting slide segment := by
        refine ⟨hslid, ?_⟩
        have : guestPageSize = 4096 := rfl
        omega
      have hrest (next : Option Nat) : Post (composeRequests file slide imageName segments
          (mappings ++ [requestOf file slide imageName segment]) next) s
          (fun composed s' => s' = s ∧ composed.1 = mappings ++
            (nonempty (segment :: segments)).map (requestOf file slide imageName) ∧
            ∀ other ∈ nonempty (segment :: segments), Fitting slide other)
          (Refused s) := by
        refine Post.mono composeRequests_spec ?_ fun _ _ he => he
        rintro composed _ ⟨rfl, hcomposed, hall⟩
        rw [hcons]
        exact ⟨rfl, by simp [hcomposed], List.forall_mem_cons.mpr ⟨hfitting, hall⟩⟩
      dsimp only
      split
      · exact Post.failIf_bind fun _ => hrest _
      · exact hrest loadAddress

theorem entryOf_bind {f : Nat → Access α} {Q : α → AddressSpace → Prop}
    (h : ∀ entry, Post (f entry) s Q (Refused s)) : Post (entryOf file >>= f) s Q (Refused s) := by
  refine Post.bind ?_
  unfold entryOf
  split
  · exact Post.pure (h _)
  · exact ⟨rfl, by simp⟩

/-- The requests are the ones of the segments that are not empty, and one has the entry point. -/
theorem preflight_spec : Post (preflight file slide imageName) s
    (fun checked s' => s' = s ∧
      checked.1 = (nonempty file.segments).map (requestOf file slide imageName) ∧
      (∀ segment ∈ nonempty file.segments, Fitting slide segment) ∧
      checked.1.any (entryInside checked.2.entryPoint) = true)
    (Refused s) := by
  unfold preflight
  refine Post.bind (Post.mono composeRequests_spec ?_ fun _ _ h => h)
  rintro ⟨mappings, loadAddress⟩ s ⟨rfl, hmappings, hfitting⟩
  refine Post.failIf_bind fun _ => entryOf_bind fun unslid => slidAddress_bind fun _ => ?_
  refine Post.failIf_bind fun hentry => Post.pure ⟨rfl, hmappings, hfitting, ?_⟩
  simpa using hentry

theorem roundedSize_lt {size : Nat} (h : size + (guestPageSize - 1) < 2 ^ 64) :
    roundedSize size < 2 ^ 64 :=
  (Nat.div_mul_le_self _ _).trans_lt h

/-! ## What is loaded -/

/-- The byte of a segment : the one of the file, or zero after the end of the file. -/
def imageByte (file : MachOFile) (segment : Segment) (offset : Nat) : Byte :=
  if offset < segment.fileSize then file.bytes.getD (segment.fileOffset + offset) 0 else 0

theorem getD_contents (file : MachOFile) (segment : Segment) (offset : Nat) :
    (file.contents segment).getD offset 0 = imageByte file segment offset := by
  unfold imageByte MachOFile.contents
  split
  · next h => simp [List.getD, h]
  · next h => simp [List.getD, h]

/-- A mapping is the one of a segment. Its bytes are there unless it may never be accessed, and are
read if it is readable. -/
structure Installed (file : MachOFile) (slide : BitVec 64) (segment : Segment) (s' : AddressSpace)
    (m : Mapping) : Prop where
  base : m.base = segment.virtualAddress + slide.toNat
  size : m.size = roundedSize segment.virtualSize
  permissions : m.permissions = translatePermissions segment.initialProtection
  maximum : m.maximumPermissions = translatePermissions segment.maximumProtection
  bytes : m.maximumPermissions ≠ .none →
    ∀ o < m.size, s'.shownByte m o = imageByte file segment o
  read : m.permissions.read = true → ∀ o < m.size,
    (AddressSpace.readU8 (BitVec.ofNat 64 (m.base + o)) s').1 = .ok (imageByte file segment o)

/-- What loading an image has done : the segments that are not empty are there, nothing else has
changed, and the entry point is in an executable mapping. -/
structure Loaded (s : AddressSpace) (file : MachOFile) (slide : BitVec 64) (image : LoadedImage)
    (s' : AddressSpace) : Prop where
  segments : ∀ segment ∈ file.segments, segment.virtualSize ≠ 0 →
    ∃ m ∈ s'.mappings, Installed file slide segment s' m
  others : ∀ m ∈ s'.mappings, m ∈ s.mappings ∨
    ∃ segment ∈ file.segments, segment.virtualSize ≠ 0 ∧ Installed file slide segment s' m
  kept : ∀ m ∈ s.mappings, m ∈ s'.mappings ∧ SameBytes s s' m
  entry : ∃ m ∈ s'.mappings, m.permissions.execute = true ∧ m.base ≤ image.entryPoint ∧
    image.entryPoint < m.base + m.size

/-- A batch that is mapped leaves an orderly space. -/
theorem mapSegments_orderly (hr : Orderly s) (requests : List SegmentMapping) :
    Post (mapSegments requests) s
      (fun _ s' => BatchFits s requests ∧ s' = batched requests s ∧ Orderly s') (Refused s) := by
  have hbatched := mapSegments_batched hr.inv requests
  have hafter : Orderly (s.after (.mapSegments requests)) := hr.after trivial
  unfold Post at hbatched ⊢
  change Orderly (mapSegments requests s).2 at hafter
  rcases hrun : mapSegments requests s with ⟨e | u, s'⟩
  · rwa [hrun] at hbatched
  · rw [hrun] at hbatched hafter
    exact ⟨hbatched.1, hbatched.2, hafter⟩

/-- The mapping of a request is the one of its segment. -/
theorem Fitting.installed (h : Fitting slide segment) {requests : List SegmentMapping}
    (hr : Orderly (batched requests s))
    (hm : (requestOf file slide imageName segment).toMapping ∈ (batched requests s).mappings) :
    Installed file slide segment (batched requests s)
      (requestOf file slide imageName segment).toMapping := by
  have hbase : (requestOf file slide imageName segment).toMapping.base =
      segment.virtualAddress + slide.toNat := by
    simp only [SegmentMapping.toMapping, requestOf, segmentRequest, BitVec.toNat_ofNat]
    exact Nat.mod_eq_of_lt h.1
  have hsize : (requestOf file slide imageName segment).toMapping.size =
      roundedSize segment.virtualSize := by
    simp only [SegmentMapping.toMapping, requestOf, segmentRequest, BitVec.toNat_ofNat]
    exact Nat.mod_eq_of_lt (roundedSize_lt h.2)
  have hshown (hmax : (requestOf file slide imageName segment).toMapping.maximumPermissions ≠ .none)
      (o : Nat) : (batched requests s).shownByte
        (requestOf file slide imageName segment).toMapping o = imageByte file segment o := by
    have hmax' : translatePermissions segment.maximumProtection ≠ .none := hmax
    rw [← getD_contents]
    show (segmentBacking _ (translatePermissions segment.maximumProtection)
      (file.contents segment)).get o = _
    rw [segmentBacking, if_neg hmax']
    rfl
  refine ⟨hbase, hsize, rfl, rfl, fun hmax o _ => hshown hmax o, fun hread o ho => ?_⟩
  -- what may be read now has backing
  have hplaced := hr.inv.placed _ hm
  have hmax : (requestOf file slide imageName segment).toMapping.maximumPermissions ≠ .none :=
    Permission.ne_none_of_has hplaced.within (fun hnone => by rw [hnone] at hread; cases hread)
  obtain ⟨memory, hd⟩ := exists_depicts hr.inv.settled
  have hbelow := hplaced.below
  have haddress := Nat.mod_eq_of_lt
    (show (requestOf file slide imageName segment).toMapping.base + o < 2 ^ 64 by omega)
  rw [← BitVec.toNat_ofNat] at haddress
  refine (readU8_ok_iff hr hd).mpr ⟨?_, ?_⟩
  · rw [haddress]
    refine canLoad_of_plain hr.inv hm hread rfl rfl (.inr ?_) (Nat.le_add_right _ _) (by omega)
    have hmax' : translatePermissions segment.maximumProtection ≠ .none := hmax
    show (segmentBacking _ (translatePermissions segment.maximumProtection)
      (file.contents segment)).size = _
    rw [segmentBacking, if_neg hmax']
    rfl
  · rw [haddress, ← hd _ hm o ho, ← hshown hmax o]
    rfl

/-- A file is loaded as a whole, or nothing has changed. -/
theorem mapImage_spec (hr : Orderly s) :
    Post (mapImage file slide imageName) s (Loaded s file slide) fun _ s' => s' = s := by
  suffices h : Post (mapImage file slide imageName) s (Loaded s file slide) (Refused s) from
    Post.mono h (fun _ _ h => h) fun _ _ h => h.1
  unfold mapImage
  refine Post.bind (Post.mono preflight_spec ?_ fun _ _ h => h)
  rintro ⟨mappings, image⟩ s ⟨rfl, hmappings, hfitting, hentry⟩
  dsimp only at hmappings hentry ⊢
  refine Post.bind (Post.mono (mapSegments_orderly hr mappings) ?_ fun _ _ h => h)
  rintro _ _ ⟨-, rfl, hr'⟩
  have hperm := perm_batched mappings s
  have hmem {m : Mapping} : m ∈ (batched mappings s).mappings ↔
      m ∈ s.mappings ∨ ∃ segment ∈ nonempty file.segments,
        (requestOf file slide imageName segment).toMapping = m := by
    rw [hperm.mem_iff, List.mem_append, hmappings, List.map_map, List.mem_map]
    rfl
  have hnonempty {segment : Segment} : segment ∈ nonempty file.segments ↔
      segment ∈ file.segments ∧ segment.virtualSize ≠ 0 := by
    simp [nonempty]
  refine Post.pure ⟨fun segment hsegment hne => ?_, fun m hm => ?_, fun m hm => ?_, ?_⟩
  · have hm := hnonempty.mpr ⟨hsegment, hne⟩
    have hin := hmem.mpr (.inr ⟨segment, hm, rfl⟩)
    exact ⟨_, hin, (hfitting segment hm).installed hr' hin⟩
  · rcases hmem.mp hm with h | ⟨segment, hsegment, rfl⟩
    · exact .inl h
    · obtain ⟨hin, hne⟩ := hnonempty.mp hsegment
      exact .inr ⟨segment, hin, hne, (hfitting segment hsegment).installed hr' hm⟩
  · exact ⟨hmem.mpr (.inl hm), .of_eq (fun _ _ => rfl) fun _ _ => rfl⟩
  · -- the request that the loader found
    obtain ⟨request, hrequest, hinside⟩ := List.any_eq_true.mp hentry
    simp only [entryInside, Bool.and_eq_true, decide_eq_true_eq] at hinside
    refine ⟨request.toMapping, hperm.mem_iff.mpr (List.mem_append_right _
      (List.mem_map_of_mem hrequest)), ?_, hinside.1.2, ?_⟩
    · show request.permissions.execute = true
      simpa [Permission.has] using hinside.1.1
    · have := hinside.2
      have hbase := hinside.1.2
      show image.entryPoint < request.base.toNat + request.size.toNat
      omega

/-- A file that passes the checks is loaded, if its segments fit. -/
theorem mapImage_eq (hi : Inv s) {image : LoadedImage}
    (hchecked : (preflight file slide imageName s).1.toOption.map Prod.snd = some image)
    (hfits : BatchFits s ((nonempty file.segments).map (requestOf file slide imageName)))
    (hcount : s.mappings.length +
      ((nonempty file.segments).map (requestOf file slide imageName)).length < 2 ^ 64) :
    mapImage file slide imageName s = (.ok image,
      batched ((nonempty file.segments).map (requestOf file slide imageName)) s) := by
  have hspec : Post (preflight file slide imageName) s (fun checked s' => s' = s ∧
      checked.1 = (nonempty file.segments).map (requestOf file slide imageName)) (Refused s) :=
    Post.mono preflight_spec (fun _ _ h => ⟨h.1, h.2.1⟩) fun _ _ h => h
  unfold Post at hspec
  rcases hrun : preflight file slide imageName s with ⟨e | ⟨mappings, image'⟩, s'⟩
  · rw [hrun] at hchecked
    cases hchecked
  · rw [hrun] at hspec hchecked
    obtain ⟨rfl, hmappings⟩ := hspec
    dsimp only at hmappings
    obtain rfl : image' = image := Option.some.inj hchecked
    unfold mapImage
    rw [bind_ok hrun]
    dsimp only
    rw [hmappings, bind_ok (hfits.mapSegments_eq hi hcount)]
    rfl

/-- No bytes make the parser leave them; what it accepts is well formed and, in a space that calls
lead to, loaded as a whole or not at all. -/
theorem parse_mapImage (bytes : List Byte) {calls : List Call}
    (h : Along (fun s call => call.InstallsLocal s) {} calls) (slide : BitVec 64)
    (imageName : String) :
    parse bytes ≠ .error .outsideBytes ∧ ∀ file, parse bytes = .ok file →
      Accepted bytes file ∧
        Post (mapImage file slide imageName) (afterAll {} calls)
          (Loaded (afterAll {} calls) file slide) fun _ s' => s' = afterAll {} calls := by
  obtain ⟨hsafe, haccepted⟩ := parse_spec bytes
  exact ⟨hsafe, fun file hfile => ⟨haccepted file hfile, mapImage_spec (orderly_afterAll h)⟩⟩

/-- The bytes of an `LC_SEGMENT_64` without sections, of one page. -/
def segmentCommand (name : List Byte) (address fileOffset fileSize : BitVec 64)
    (protection : BitVec 32) : List Byte :=
  littleEndian 4 lcSegment64 ++ littleEndian 4 72#32 ++ name ++
    List.replicate (16 - name.length) 0 ++ littleEndian 8 address ++ littleEndian 8 0x1000#64 ++
    littleEndian 8 fileOffset ++ littleEndian 8 fileSize ++ littleEndian 4 protection ++
    littleEndian 4 protection ++ littleEndian 4 0#32 ++ littleEndian 4 0#32

/-- An executable of one segment and of a second one that reserves a page, though the file has bytes
of it. -/
def reservingImage : List Byte :=
  littleEndian 4 machMagic64 ++ littleEndian 4 cpuTypeX86_64 ++ littleEndian 4 3#32 ++
    littleEndian 4 mhExecute ++ littleEndian 4 3#32 ++ littleEndian 4 168#32 ++
    littleEndian 8 0#64 ++ segmentCommand [0x54] 0x4000 0 200 5 ++
    segmentCommand [0x52] 0x8000 4 4 0 ++ littleEndian 4 lcMain ++ littleEndian 4 24#32 ++
    littleEndian 8 0x60#64 ++ littleEndian 8 0#64

def reservingFile : MachOFile := ((parse reservingImage).toOption).getD {}

theorem parse_reservingImage : parse reservingImage = .ok reservingFile := by decide +kernel

/-- The segment with the header and the entry point. -/
def headerSegment : Segment where
  name := [0x54]
  virtualAddress := 0x4000
  virtualSize := 0x1000
  fileOffset := 0
  fileSize := 200
  maximumProtection := 5
  initialProtection := 5

/-- The segment that is reserved. -/
def reservedSegment : Segment where
  name := [0x52]
  virtualAddress := 0x8000
  virtualSize := 0x1000
  fileOffset := 4
  fileSize := 4
  maximumProtection := 0
  initialProtection := 0

theorem segments_reservingFile :
    nonempty reservingFile.segments = [headerSegment, reservedSegment] := by decide +kernel

/-- The image is loaded into an empty space. -/
theorem mapImage_reservingFile : mapImage reservingFile 0 "" {} =
    (.ok ⟨0x4000, 0x4060, 0, 2⟩,
      batched ((nonempty reservingFile.segments).map (requestOf reservingFile 0 "")) {}) := by
  have hrequests : (nonempty reservingFile.segments).map (requestOf reservingFile 0 "") =
      [requestOf reservingFile 0 "" headerSegment,
        requestOf reservingFile 0 "" reservedSegment] := by
    rw [segments_reservingFile]
    rfl
  refine mapImage_eq .initial (by decide +kernel) ⟨fun r hr => ?_, ?_⟩ (by decide +kernel)
  · rw [hrequests] at hr
    rcases List.mem_pair.mp hr with rfl | rfl
    · exact ⟨by decide +kernel, by decide +kernel, by decide +kernel, by decide +kernel,
        by decide +kernel, by decide +kernel, by simp⟩
    · exact ⟨by decide +kernel, by decide +kernel, by decide +kernel, by decide +kernel,
        by decide +kernel, by decide +kernel, by simp⟩
  · rw [hrequests]
    exact List.pairwise_pair.mpr (.inl (by decide +kernel))

theorem parse_mapImage_reserving :
    parse reservingImage = .ok reservingFile ∧ Accepted reservingImage reservingFile ∧
      Post (mapImage reservingFile 0x1000 "") (afterAll {} [])
        (Loaded (afterAll {} []) reservingFile 0x1000) fun _ s' => s' = afterAll {} [] :=
  ⟨parse_reservingImage,
    (@parse_mapImage reservingImage [] trivial 0x1000 "").2 reservingFile parse_reservingImage⟩

/-- The page that is reserved does not have the bytes of the file. -/
theorem reservation_has_no_bytes :
    ∃ file segment image s', parse reservingImage = .ok file ∧ segment ∈ file.segments ∧
      segment.virtualSize ≠ 0 ∧ mapImage file 0 "" {} = (.ok image, s') ∧
      ∀ m ∈ s'.mappings, m.base = segment.virtualAddress →
        m.bytes.size = 0 ∧ s'.shownByte m 0 ≠ imageByte file segment 0 := by
  refine ⟨reservingFile, reservedSegment, _, _, parse_reservingImage, by decide +kernel, by decide,
    mapImage_reservingFile, fun m hm hbase => ?_⟩
  have hin := (perm_batched _ _).mem_iff.mp hm
  rw [segments_reservingFile] at hin
  rcases List.mem_append.mp hin with h | h
  · cases h
  rcases List.mem_pair.mp h with rfl | rfl
  · exact absurd hbase (by decide +kernel)
  · have hbytes : (requestOf reservingFile 0 "" reservedSegment).toMapping.bytes.get 0 ≠
        imageByte reservingFile reservedSegment 0 := by decide +kernel
    exact ⟨by decide +kernel, hbytes⟩

end Macho

end Rosa
