import Rosa.Darwin.SlideChains
import Rosa.Dbt.Dispatcher

/-!
# Opening the shared cache

`GuestSharedCache::open` of `darwin/SharedCache.cpp`. The main file has a header, a table of
mappings and tables of the images and of the subcaches, each of which is a file of its own. What
the tables say comes from the files : `open` checks the range of every read, and that the mappings
of all files are apart and inside the shared region. A file is read more than once; the host gives
the same bytes each time, and reads that the host fails are not modelled.
-/

namespace Rosa.Darwin.GuestSharedCache

open Rosa.Computation

/-! ## The host -/

/-- A regular file. -/
structure HostFile where
  size : Nat
  bytes : Nat → Byte
  small : size < 2 ^ 63

/-- What `stat` and `canonical` say about a file. -/
structure HostIdentity where
  device : BitVec 32
  inode : BitVec 64
  canonicalPath : String

/-- The host's answers : a file, or the message of `FileReader`; and who the file is. -/
structure CacheHost where
  file : String → Except String HostFile
  identity : String → Except String HostIdentity

/-- A part of `open`, which throws messages. -/
abbrev Opening (α : Type) := Computation Unit String α

/-- Throw a message. -/
def failIf (condition : Bool) (message : String) : Opening Unit :=
  raiseIf condition ("dyld shared cache " ++ message)

/-- What the host answers, or its message. -/
def ask {α : Type} : Except String α → Opening α
  | .ok a => pure a
  | .error message => raise message

/-- `FileReader`. -/
structure FileReader where
  path : String
  file : HostFile

/-- The constructor of `FileReader`. -/
def openReader (host : CacheHost) (path : String) : Opening FileReader := do
  let file ← ask (host.file path)
  pure ⟨path, file⟩

/-- `read`. -/
def FileReader.read (reader : FileReader) (offset size : Nat) (description : String) :
    Opening (List Byte) := do
  failIf (reader.file.size < offset || reader.file.size - offset < size)
    (description ++ " exceeds " ++ reader.path)
  pure (bytesAt reader.file.bytes offset size)

/-- `maximumImagePathSize`. -/
def maximumImagePathSize : Nat := 4096

/-- `readCString`. -/
def FileReader.readCString (reader : FileReader) (offset : Nat) (description : String) :
    Opening (List Byte) := do
  failIf (reader.file.size ≤ offset) (description ++ " exceeds " ++ reader.path)
  let limit := min maximumImagePathSize (reader.file.size - offset)
  let bytes ← reader.read offset limit description
  failIf (!bytes.contains 0) (description ++ " is not NUL-terminated")
  failIf (bytes.head? == some 0) (description ++ " is empty")
  pure (bytes.takeWhile (· != 0))

/-- `readU32` and `readU64`. -/
def readField (w : Nat) (bytes : List Byte) (offset : Nat) : Opening (BitVec w) := do
  failIf (bytes.length < offset || bytes.length - offset < w / 8) "header field is truncated"
  pure (ofLittleEndian w (w / 8) (bytes.drop offset))

/-- `readUuid`. -/
def readUuid (bytes : List Byte) (offset : Nat) : Opening (List Byte) := do
  failIf (bytes.length < offset || bytes.length - offset < 16) "UUID is truncated"
  pure ((bytes.drop offset).take 16)

/-- `checkedTableSize`. -/
def checkedTableSize (count : BitVec 32) (recordSize maximumCount : Nat) (description : String) :
    Opening Nat := do
  failIf (maximumCount < count.toNat) (description ++ " count is unreasonable")
  failIf (count != 0 && (2 ^ 64 - 1) / count.toNat < recordSize)
    (description ++ " table size overflows")
  pure (count.toNat * recordSize)

/-! ## The header -/

/-- `SharedCacheArchitecture`. -/
inductive SharedCacheArchitecture
  | x86_64 | x86_64h
  deriving DecidableEq, Repr

/-- A text of the source as bytes. -/
def ascii (text : String) : List Byte := text.toList.map fun c => BitVec.ofNat 8 c.toNat

/-- Bytes of the file as a text. -/
def text (bytes : List Byte) : String := String.ofList (bytes.map fun b => Char.ofNat b.toNat)

/-- The magic, without the zeros and blanks at its end. -/
def trimmed (magic : List Byte) : List Byte :=
  (magic.reverse.dropWhile fun b => b == 0 || b == 32).reverse

/-- `parseMagic`. -/
def parseMagic (bytes : List Byte) : Opening (List Byte × SharedCacheArchitecture) := do
  failIf (bytes.length < 16) "magic is truncated"
  let magic := trimmed (bytes.take 16)
  if !(ascii "dyld_v").isPrefixOf magic then raise "unrecognized dyld shared cache magic"
  else if (ascii "x86_64h").isSuffixOf magic then pure (magic, .x86_64h)
  else if (ascii "x86_64").isSuffixOf magic then pure (magic, .x86_64)
  else raise "dyld shared cache is not x86_64 or x86_64h"

/-- `parsePermissions`. -/
def parsePermissions (raw : BitVec 32) (description : String) : Opening Permission := do
  failIf (raw &&& ~~~7#32 != 0) (description ++ " contains unsupported protection bits")
  pure { read := raw.getLsbD 0, write := raw.getLsbD 1, execute := raw.getLsbD 2 }

/-- `contains`. -/
def contains (base size address : BitVec 64) (accessSize : Nat) : Bool :=
  if address < base || size.toNat < accessSize then false
  else (address - base).toNat ≤ size.toNat - accessSize

/-- `SharedCacheMapping`; `rawMaximum` and `rawInitial` are the permissions as numbers. -/
structure SharedCacheMapping where
  address : BitVec 64
  size : BitVec 64
  fileOffset : BitVec 64
  slideInfoFileOffset : BitVec 64 := 0
  slideInfoFileSize : BitVec 64 := 0
  flags : BitVec 64 := 0
  rawMaximum : BitVec 32
  rawInitial : BitVec 32
  maximumPermissions : Permission
  initialPermissions : Permission
  sourcePath : String
  sourceSuffix : String
  slideInfo : List Byte := []

/-- `ParsedFile`. -/
structure ParsedFile where
  magic : List Byte
  architecture : SharedCacheArchitecture
  uuid : List Byte
  mappingOffset : BitVec 32
  sharedRegionStart : BitVec 64
  sharedRegionSize : BitVec 64
  maximumSlide : BitVec 64
  dyldMachHeader : BitVec 64
  dyldEntryPoint : BitVec 64
  platform : BitVec 32
  osVersion : BitVec 32
  imageOffset : BitVec 32
  imageCount : BitVec 32
  imagesTextOffset : BitVec 64
  imagesTextCount : BitVec 64
  subcacheOffset : BitVec 32
  subcacheCount : BitVec 32
  hasModernSubcaches : Bool
  dynamicDataOffset : BitVec 64
  dynamicDataSize : BitVec 64
  mappings : List SharedCacheMapping := []

/-- A field that is there if the header reaches beyond the byte `last`, and else zero. -/
def fieldBeyond (w : Nat) (header : List Byte) (last offset : Nat) : Opening (BitVec w) :=
  if last < header.length then readField w header offset else pure 0

/-- The checks of the image-text table, if the header has one. -/
def checkImagesText (reader : FileReader) (imagesTextOffset imagesTextCount : BitVec 64) :
    Opening Unit := do
  failIf ((imagesTextOffset == 0) != (imagesTextCount == 0)) "image-text table is incomplete"
  failIf (1000000 < imagesTextCount.toNat) "image-text count is unreasonable"
  failIf (reader.file.size < imagesTextOffset.toNat ||
      reader.file.size - imagesTextOffset.toNat < imagesTextCount.toNat * 32)
    "image-text table exceeds source file"

/-- The checks of the image table, if the header has one. -/
def checkImageTable (reader : FileReader) (imageOffset imageCount : BitVec 32) : Opening Unit := do
  let imageTableSize ← checkedTableSize imageCount 32 1000000 "image"
  failIf (reader.file.size < imageOffset.toNat ||
      reader.file.size - imageOffset.toNat < imageTableSize)
    "image table exceeds source file"

/-- The checks of the dynamic data, if the header reserves some. -/
def checkDynamicData (dynamicDataOffset dynamicDataSize : BitVec 64) : Opening Unit := do
  failIf ((dynamicDataOffset == 0) != (dynamicDataSize == 0))
    "dynamic-data reservation is incomplete"
  failIf (dynamicDataSize != 0 && (dynamicDataSize.toNat < 0x4000 ||
      dynamicDataOffset.toNat % guestPageSize != 0 || dynamicDataSize.toNat % guestPageSize != 0))
    "dynamic-data reservation is invalid"

/-- The fields of the header, in the order of the source. -/
def parseHeader (reader : FileReader) (mappingOffset : BitVec 32) (header : List Byte) :
    Opening ParsedFile := do
  let (magic, architecture) ← parseMagic header
  let uuid ← readUuid header 0x58
  let dyldMachHeader ← fieldBeyond 64 header 0x87 0x78
  let dyldEntryPoint ← fieldBeyond 64 header 0x87 0x80
  let imagesTextOffset ← fieldBeyond 64 header 0x97 0x88
  let imagesTextCount ← fieldBeyond 64 header 0x97 0x90
  checkImagesText reader imagesTextOffset imagesTextCount
  let platform ← fieldBeyond 32 header 0xDB 0xD8
  let sharedRegionStart ← fieldBeyond 64 header 0xF7 0xE0
  let sharedRegionSize ← fieldBeyond 64 header 0xF7 0xE8
  let maximumSlide ← fieldBeyond 64 header 0xF7 0xF0
  let osVersion ← fieldBeyond 32 header 0x16F 0x16C
  let subcacheOffset ← fieldBeyond 32 header 0x18F 0x188
  let subcacheCount ← fieldBeyond 32 header 0x18F 0x18C
  let imageCount ← fieldBeyond 32 header 0x1C7 0x1C4
  let imageOffset ← fieldBeyond 32 header 0x1C7 0x1C0
  checkImageTable reader imageOffset imageCount
  let dynamicDataOffset ← fieldBeyond 64 header 0x1FF 0x1F0
  let dynamicDataSize ← fieldBeyond 64 header 0x1FF 0x1F8
  checkDynamicData dynamicDataOffset dynamicDataSize
  pure { magic, architecture, uuid, mappingOffset, sharedRegionStart, sharedRegionSize
         maximumSlide, dyldMachHeader, dyldEntryPoint, platform, osVersion, imageOffset
         imageCount, imagesTextOffset, imagesTextCount, subcacheOffset, subcacheCount
         hasModernSubcaches := 0x1C8 < header.length && 0x18F < header.length
         dynamicDataOffset, dynamicDataSize }

/-! ## Mappings -/

/-- One record of the mapping table. -/
def parseMapping (reader : FileReader) (suffix : String) (table : List Byte) (index : Nat) :
    Opening SharedCacheMapping := do
  let offset := index * 32
  let address ← readField 64 table offset
  let size ← readField 64 table (offset + 8)
  let fileOffset ← readField 64 table (offset + 16)
  let rawMaximum ← readField 32 table (offset + 24)
  let rawInitial ← readField 32 table (offset + 28)
  failIf (size == 0 || address.toNat % guestPageSize != 0 || size.toNat % guestPageSize != 0 ||
    fileOffset.toNat % guestPageSize != 0 || 2 ^ 64 - 1 - size.toNat < address.toNat)
    "mapping range is invalid"
  failIf (reader.file.size < fileOffset.toNat ||
    reader.file.size - fileOffset.toNat < size.toNat) "mapping exceeds source file"
  let maximumPermissions ← parsePermissions rawMaximum "maximum mapping"
  let initialPermissions ← parsePermissions rawInitial "initial mapping"
  failIf (rawInitial &&& ~~~rawMaximum != 0) "initial permissions exceed maximum permissions"
  pure { address, size, fileOffset, rawMaximum, rawInitial, maximumPermissions
         initialPermissions, sourcePath := reader.path, sourceSuffix := suffix }

/-- A loop over the records of a table, in order. -/
def forRecords {α : Type} (record : Nat → Opening α) : Nat → Nat → Opening (List α)
  | _, 0 => pure []
  | index, count + 1 => do
    let first ← record index
    let rest ← forRecords record (index + 1) count
    pure (first :: rest)

/-- The slide metadata of a mapping, if it has some. -/
def readSlideInfo (reader : FileReader) (mapping : SharedCacheMapping) : Opening (List Byte) :=
  if mapping.slideInfoFileSize = 0 then pure []
  else do
    let slideInfo ← reader.read mapping.slideInfoFileOffset.toNat mapping.slideInfoFileSize.toNat
      "slide metadata"
    let _ ← ask (parseSlideInfo2 slideInfo mapping.size.toNat)
    pure slideInfo

/-- One record of the mapping-with-slide table, on its mapping. -/
def parseSlideRecord (reader : FileReader) (slideTable : List Byte)
    (mapping : SharedCacheMapping) (index : Nat) : Opening SharedCacheMapping := do
  let offset := index * 56
  let address ← readField 64 slideTable offset
  let size ← readField 64 slideTable (offset + 8)
  let fileOffset ← readField 64 slideTable (offset + 16)
  let rawMaximum ← readField 32 slideTable (offset + 48)
  let rawInitial ← readField 32 slideTable (offset + 52)
  failIf (address != mapping.address || size != mapping.size || fileOffset != mapping.fileOffset ||
    rawMaximum != mapping.rawMaximum || rawInitial != mapping.rawInitial)
    "mapping-with-slide metadata disagrees"
  let slideInfoFileOffset ← readField 64 slideTable (offset + 24)
  let slideInfoFileSize ← readField 64 slideTable (offset + 32)
  let flags ← readField 64 slideTable (offset + 40)
  failIf (reader.file.size < slideInfoFileOffset.toNat ||
    reader.file.size - slideInfoFileOffset.toNat < slideInfoFileSize.toNat)
    "slide metadata exceeds source file"
  failIf ((slideInfoFileOffset == 0) != (slideInfoFileSize == 0))
    "slide metadata range is incomplete"
  let placed := { mapping with slideInfoFileOffset, slideInfoFileSize, flags }
  let slideInfo ← readSlideInfo reader placed
  pure { placed with slideInfo }

/-- The loop over the mapping-with-slide table. -/
def parseSlideRecords (reader : FileReader) (slideTable : List Byte) :
    List SharedCacheMapping → Nat → Opening (List SharedCacheMapping)
  | [], _ => pure []
  | mapping :: mappings, index => do
    let first ← parseSlideRecord reader slideTable mapping index
    let rest ← parseSlideRecords reader slideTable mappings (index + 1)
    pure (first :: rest)

/-- The mapping-with-slide table, if there is one. -/
def parseSlideTable (reader : FileReader) (header : List Byte) (mappingCount : BitVec 32)
    (mappings : List SharedCacheMapping) : Opening (List SharedCacheMapping) := do
  let slideOffset ← fieldBeyond 32 header 0x13F 0x138
  let slideCount ← fieldBeyond 32 header 0x13F 0x13C
  failIf ((slideOffset == 0) != (slideCount == 0)) "mapping-with-slide table is incomplete"
  if slideCount = 0 then pure mappings
  else do
    failIf (slideCount != mappingCount) "mapping-with-slide count differs"
    let slideTableSize ← checkedTableSize slideCount 56 64 "mapping-with-slide"
    let slideTable ← reader.read slideOffset.toNat slideTableSize "mapping-with-slide table"
    parseSlideRecords reader slideTable mappings 0

/-- Two neighbours of a list are related. -/
def anyAdjacent {α : Type} (related : α → α → Bool) : List α → Bool
  | a :: b :: rest => related a b || anyAdjacent related (b :: rest)
  | _ => false

/-- A mapping reaches into the next one. -/
def SharedCacheMapping.overlaps (previous mapping : SharedCacheMapping) : Bool :=
  previous.address + previous.size > mapping.address

/-- `sort` by address. -/
def sortMappings (mappings : List SharedCacheMapping) : List SharedCacheMapping :=
  mappings.insertionSort fun lhs rhs => lhs.address ≤ rhs.address

/-- `parseFile`. -/
def parseFile (reader : FileReader) (suffix : String) : Opening ParsedFile := do
  let start ← reader.read 0 24 "header prefix"
  let mappingOffset ← readField 32 start 0x10
  failIf (mappingOffset.toNat < 24 || 0x228 < mappingOffset.toNat ||
    reader.file.size < mappingOffset.toNat) "header size is invalid"
  let header ← reader.read 0 mappingOffset.toNat "header"
  let parsed ← parseHeader reader mappingOffset header
  let mappingCount ← readField 32 header 0x14
  failIf (mappingCount == 0) "has no mappings"
  let tableSize ← checkedTableSize mappingCount 32 64 "mapping"
  let table ← reader.read mappingOffset.toNat tableSize "mapping table"
  let records ← forRecords (parseMapping reader suffix table) 0 mappingCount.toNat
  let mappings ← parseSlideTable reader header mappingCount records
  let sorted := sortMappings mappings
  failIf (anyAdjacent SharedCacheMapping.overlaps sorted) "mappings overlap"
  pure { parsed with mappings := sorted }

/-- `parseSuffix`. -/
def parseSuffix (bytes : List Byte) : Opening String := do
  failIf (!bytes.contains 0 || bytes.head? == some 0) "subcache suffix is not terminated"
  let suffix := bytes.takeWhile (· != 0)
  failIf (suffix.head? != some 46 || suffix.contains 47 ||
    anyAdjacent (fun a b => a == 46 && b == 46) suffix ||
    !suffix.all fun b => (48 ≤ b && b ≤ 57) || (65 ≤ b && b ≤ 90) ||
      (97 ≤ b && b ≤ 122) || b == 46 || b == 95 || b == 45) "subcache suffix is unsafe"
  pure (text suffix)

/-! ## Images -/

/-- `locate`. -/
def locate (mappings : List SharedCacheMapping) (address : BitVec 64) (size : Nat) :
    Option (SharedCacheMapping × BitVec 64) :=
  (mappings.find? fun mapping => contains mapping.address mapping.size address size).map
    fun mapping => (mapping, mapping.fileOffset + address - mapping.address)

/-- `SharedCacheImage`, the whole record. -/
structure ParsedImage extends SharedCacheImage where
  uuid : List Byte
  path : List Byte
  sourceSuffix : String

/-- The records of the two image tables agree, if there are two. -/
def checkLegacyRecord (legacyTable : List Byte) (offset : Nat) (address : BitVec 64)
    (pathOffset : BitVec 32) : Opening Unit :=
  if legacyTable.isEmpty then pure ()
  else do
    let legacyAddress ← readField 64 legacyTable offset
    let legacyPath ← readField 32 legacyTable (offset + 24)
    failIf (legacyAddress != address || legacyPath != pathOffset) "image tables disagree"

/-- One record of the image-text table. -/
def parseImage (reader : FileReader) (table legacyTable : List Byte)
    (mappings : List SharedCacheMapping) (index : Nat) : Opening ParsedImage := do
  let offset := index * 32
  let address ← readField 64 table (offset + 16)
  let textSize ← readField 32 table (offset + 24)
  let pathOffset ← readField 32 table (offset + 28)
  checkLegacyRecord legacyTable offset address pathOffset
  failIf (textSize == 0 || 2 ^ 64 - 1 - textSize.toNat < address.toNat)
    "image text range is invalid"
  match locate mappings address textSize.toNat with
  | none => raise "dyld shared cache image text is not in one executable mapping"
  | some (mapping, _) =>
    failIf (!mapping.initialPermissions.execute) "image text is not in one executable mapping"
    let uuid ← readUuid table offset
    let path ← reader.readCString pathOffset.toNat "image path"
    pure { index, loadAddress := address, textSize := textSize.toNat, uuid, path
           sourceSuffix := mapping.sourceSuffix }

/-- An image reaches into the next one. -/
def overlapsImage (previous image : ParsedImage) : Bool :=
  previous.loadAddress + BitVec.ofNat 64 previous.textSize > image.loadAddress

/-- The legacy table, if there is one. -/
def readLegacyTable (reader : FileReader) (main : ParsedFile) : Opening (List Byte) :=
  if main.imageCount = 0 then pure []
  else reader.read main.imageOffset.toNat (main.imagesTextCount.toNat * 32) "legacy image table"

/-- `parseImages`. -/
def parseImages (reader : FileReader) (main : ParsedFile) (mappings : List SharedCacheMapping) :
    Opening (List ParsedImage) :=
  if main.imagesTextCount = 0 then pure []
  else do
    failIf (main.imageCount != 0 && main.imageCount.toNat != main.imagesTextCount.toNat)
      "image tables have different counts"
    let table ← reader.read main.imagesTextOffset.toNat (main.imagesTextCount.toNat * 32)
      "image-text table"
    let legacyTable ← readLegacyTable reader main
    let images ← forRecords (parseImage reader table legacyTable mappings) 0
      main.imagesTextCount.toNat
    let sorted := images.insertionSort fun lhs rhs => lhs.loadAddress ≤ rhs.loadAddress
    failIf (anyAdjacent overlapsImage sorted) "image text ranges overlap"
    pure sorted

/-! ## The cache -/

/-- `SharedCacheFile`. -/
structure SharedCacheFile where
  path : String
  suffix : String
  uuid : List Byte
  cacheVmOffset : BitVec 64 := 0
  mappings : List SharedCacheMapping

/-- One record of the subcache table. -/
structure SubcacheRecord where
  expectedUuid : List Byte
  vmOffset : BitVec 64
  suffix : String

/-- The fields of a subcache record. -/
def parseSubcacheRecord (main : ParsedFile) (subcacheTable : List Byte) (index : Nat) :
    Opening SubcacheRecord := do
  let offset := index * (if main.hasModernSubcaches then 56 else 24)
  let expectedUuid ← readUuid subcacheTable offset
  let vmOffset ← readField 64 subcacheTable (offset + 16)
  let suffix ← if main.hasModernSubcaches then
      parseSuffix ((subcacheTable.drop (offset + 24)).take 32)
    else pure ("." ++ toString (index + 1))
  pure { expectedUuid, vmOffset, suffix }

/-- The file of a subcache record. -/
def openSubcache (host : CacheHost) (path : String) (main : ParsedFile)
    (files : List SharedCacheFile) (record : SubcacheRecord) : Opening SharedCacheFile := do
  failIf (files.any fun file => file.suffix == record.suffix) "repeats a subcache suffix"
  let reader ← openReader host (path ++ record.suffix)
  let subcache ← parseFile reader record.suffix
  raiseIf (subcache.architecture != main.architecture || subcache.magic != main.magic)
    "dyld subcache architecture differs from main cache"
  raiseIf (subcache.uuid != record.expectedUuid)
    "dyld subcache UUID differs from main cache metadata"
  raiseIf (subcache.subcacheCount != 0) "nested dyld subcaches are unsupported"
  raiseIf (2 ^ 64 - 1 - record.vmOffset.toNat < main.sharedRegionStart.toNat ||
      subcache.sharedRegionStart != main.sharedRegionStart + record.vmOffset)
    "dyld subcache VM offset disagrees with its mappings"
  pure { path := path ++ record.suffix, suffix := record.suffix, uuid := subcache.uuid
         cacheVmOffset := record.vmOffset, mappings := subcache.mappings }

/-- The loop over the subcaches. -/
def openSubcaches (host : CacheHost) (path : String) (main : ParsedFile)
    (subcacheTable : List Byte) :
    Nat → Nat → List SharedCacheFile → Opening (List SharedCacheFile)
  | _, 0, files => pure files
  | index, count + 1, files => do
    let record ← parseSubcacheRecord main subcacheTable index
    let file ← openSubcache host path main files record
    openSubcaches host path main subcacheTable (index + 1) count (files ++ [file])

/-- The shared region is there, and the dynamic data are in it. -/
def checkRegion (main : ParsedFile) : Opening Unit := do
  failIf (main.mappingOffset.toNat ≤ 0x18C || main.sharedRegionSize == 0 ||
    main.sharedRegionStart == 0) "lacks required shared-region metadata"
  failIf (2 ^ 64 - 1 - main.sharedRegionSize.toNat < main.sharedRegionStart.toNat)
    "shared region overflows"
  failIf (main.dynamicDataSize != 0 &&
      (main.sharedRegionSize < main.dynamicDataOffset ||
        main.sharedRegionSize - main.dynamicDataOffset < main.dynamicDataSize))
    "dynamic data lies outside shared region"

/-- The loop over the sorted mappings of all files. -/
def checkMappings (regionStart regionEnd : BitVec 64) :
    Option SharedCacheMapping → List SharedCacheMapping → Opening Unit
  | _, [] => pure ()
  | previous, mapping :: mappings => do
    failIf (mapping.address < regionStart || regionEnd < mapping.address + mapping.size)
      "mapping lies outside shared region"
    failIf (previous.any fun previous => previous.overlaps mapping)
      "files overlap in guest memory"
    checkMappings regionStart regionEnd (some mapping) mappings

/-- The dynamic data meet a mapping. -/
def SharedCacheMapping.meets (mapping : SharedCacheMapping)
    (dynamicDataAddress dynamicDataSize : BitVec 64) : Bool :=
  dynamicDataAddress < mapping.address + mapping.size &&
    mapping.address < dynamicDataAddress + dynamicDataSize

/-- The Mach-O header of the dynamic linker in the cache. -/
def checkDyld (host : CacheHost) (main : ParsedFile) (mappings : List SharedCacheMapping) :
    Opening Unit :=
  if main.dyldMachHeader = 0 ∧ main.dyldEntryPoint = 0 then pure ()
  else
    match locate mappings main.dyldMachHeader 8, locate mappings main.dyldEntryPoint 1 with
    | some (mapping, offset), some (entry, _) => do
      raiseIf (!entry.initialPermissions.execute)
        "dyld-in-cache addresses are not mapped executable data"
      let dyldFile ← openReader host mapping.sourcePath
      let machHeader ← dyldFile.read offset.toNat 8 "dyld-in-cache Mach-O header"
      let magic ← readField 32 machHeader 0
      let cpuType ← readField 32 machHeader 4
      raiseIf (magic != 0xFEEDFACF || cpuType != 0x01000007)
        "dyld-in-cache Mach-O header is not x86_64"
    | _, _ => raise "dyld-in-cache addresses are not mapped executable data"

end Rosa.Darwin.GuestSharedCache

namespace Rosa.Darwin

open Rosa.Computation GuestSharedCache

/-- `GuestSharedCache`. -/
structure GuestSharedCache where
  architecture : SharedCacheArchitecture
  magic : List Byte
  uuid : List Byte
  regionStart : BitVec 64
  regionSize : BitVec 64
  maximumSlide : BitVec 64
  dyldMachHeader : BitVec 64
  dyldEntryPoint : BitVec 64
  platform : BitVec 32
  osVersion : BitVec 32
  imageCount : BitVec 32
  dynamicDataAddress : BitVec 64
  dynamicDataSize : BitVec 64
  files : List SharedCacheFile
  mappings : List SharedCacheMapping
  images : List ParsedImage
  identity : HostIdentity

/-- `open`. -/
def GuestSharedCache.openCache (host : CacheHost) (path : String) : Opening GuestSharedCache := do
  let reader ← openReader host path
  let main ← parseFile reader ""
  checkRegion main
  let dynamicDataAddress :=
    if main.dynamicDataSize = 0 then 0 else main.sharedRegionStart + main.dynamicDataOffset
  let identity ← ask (host.identity path)
  let mainReader ← openReader host path
  let subcacheTableSize ← checkedTableSize main.subcacheCount
    (if main.hasModernSubcaches then 56 else 24) 64 "subcache"
  let subcacheTable ← mainReader.read main.subcacheOffset.toNat subcacheTableSize "subcache table"
  let files ← openSubcaches host path main subcacheTable 0 main.subcacheCount.toNat
    [{ path, suffix := "", uuid := main.uuid, mappings := main.mappings }]
  let mappings := sortMappings (files.flatMap SharedCacheFile.mappings)
  let regionEnd := main.sharedRegionStart + main.sharedRegionSize
  checkMappings main.sharedRegionStart regionEnd none mappings
  failIf (main.dynamicDataSize != 0 && mappings.any fun mapping =>
    mapping.meets dynamicDataAddress main.dynamicDataSize) "dynamic data overlaps a file mapping"
  let images ← parseImages mainReader main mappings
  checkDyld host main mappings
  pure { architecture := main.architecture, magic := main.magic, uuid := main.uuid
         regionStart := main.sharedRegionStart, regionSize := main.sharedRegionSize
         maximumSlide := main.maximumSlide, dyldMachHeader := main.dyldMachHeader
         dyldEntryPoint := main.dyldEntryPoint, platform := main.platform
         osVersion := main.osVersion
         imageCount := if images = [] then main.imageCount else BitVec.ofNat 32 images.length
         dynamicDataAddress, dynamicDataSize := main.dynamicDataSize, files, mappings, images
         identity }

namespace GuestSharedCache

/-! ## What a part of `open` ensures -/

/-- The part throws, or it returns a value with the property. -/
def Ensures {α : Type} (x : Opening α) (Q : α → Prop) : Prop :=
  Post x () (fun a _ => Q a) fun _ _ => True

section

variable {α β : Type} {x : Opening α} {f : α → Opening β} {Q : β → Prop} {R : α → Prop}

theorem Ensures.pure {a : α} (h : R a) : Ensures (Pure.pure a) R := h

theorem Ensures.raise {message : String} : Ensures (Computation.raise message : Opening α) R :=
  trivial

theorem Ensures.bind (hx : Ensures x R) (hf : ∀ a, R a → Ensures (f a) Q) :
    Ensures (x >>= f) Q :=
  Post.bind (hx.mono (fun a _ h => hf a h) fun _ _ _ => trivial)

/-- Nothing is needed of the first part. -/
theorem Ensures.skip (hf : ∀ a, Ensures (f a) Q) : Ensures (x >>= f) Q := by
  have hx : Ensures x fun _ => True := by
    unfold Ensures Post
    split <;> trivial
  exact hx.bind fun a _ => hf a

theorem Ensures.mono {R' : α → Prop} (h : Ensures x R) (hR : ∀ a, R a → R' a) :
    Ensures x R' :=
  Post.mono h (fun a _ ha => hR a ha) fun _ _ _ => trivial

theorem Ensures.of_ok {a : α} (h : Ensures x R) (hx : x () = (.ok a, ())) : R a := by
  unfold Ensures Post at h
  rw [hx] at h
  exact h

theorem Ensures.raiseIf_bind {condition : Bool} {message : String} {f : Unit → Opening β}
    (hf : condition = false → Ensures (f ()) Q) :
    Ensures (raiseIf condition message >>= f) Q :=
  Post.bind (Post.raiseIf (fun _ => trivial) hf)

theorem Ensures.of_raiseIf {condition : Bool} {message : String} {R : Unit → Prop}
    (hf : condition = false → R ()) : Ensures (Computation.raiseIf condition message) R :=
  Post.raiseIf (fun _ => trivial) hf

theorem Ensures.of_failIf {condition : Bool} {message : String} {R : Unit → Prop}
    (hf : condition = false → R ()) : Ensures (failIf condition message) R := .of_raiseIf hf

theorem Ensures.failIf_bind {condition : Bool} {message : String} {f : Unit → Opening β}
    (hf : condition = false → Ensures (f ()) Q) :
    Ensures (failIf condition message >>= f) Q := .raiseIf_bind hf

theorem Ensures.ask {answer : Except String α} (h : ∀ a, answer = .ok a → R a) :
    Ensures (ask answer) R := by
  cases answer with
  | error message => trivial
  | ok a => exact h a rfl

/-- What is ensured of every record is ensured of all. -/
theorem Ensures.forRecords {record : Nat → Opening α} (h : ∀ index, Ensures (record index) R) :
    ∀ index count, Ensures (forRecords record index count) fun list => ∀ a ∈ list, R a
  | _, 0 => fun _ hmem => absurd hmem List.not_mem_nil
  | index, count + 1 => by
    refine (h index).bind fun first hfirst => ?_
    refine (Ensures.forRecords h (index + 1) count).bind fun rest hrest => Ensures.pure ?_
    rintro a hmem
    rcases List.mem_cons.mp hmem with rfl | hmem
    · exact hfirst
    · exact hrest a hmem

end

/-! ## Neighbours -/

/-- Where no neighbours overlap, no two overlap. -/
theorem pairwise_of_anyAdjacent {α : Type} {related : α → α → Bool} {R : α → α → Prop}
    (htrans : ∀ a b c, R a b → R b c → R a c) :
    ∀ {list : List α}, (∀ a ∈ list, ∀ b ∈ list, related a b = false → R a b) →
      anyAdjacent related list = false → list.Pairwise R
  | [], _, _ => List.Pairwise.nil
  | [a], _, _ => List.pairwise_singleton R a
  | a :: b :: rest, hR, h => by
    rw [anyAdjacent, Bool.or_eq_false_iff] at h
    have hrest : (b :: rest).Pairwise R := pairwise_of_anyAdjacent htrans
      (fun c hc d hd => hR c (List.mem_cons_of_mem _ hc) d (List.mem_cons_of_mem _ hd)) h.2
    have hab : R a b := hR a (by simp) b (by simp) h.1
    refine List.pairwise_cons.mpr ⟨fun c hc => ?_, hrest⟩
    rcases List.mem_cons.mp hc with rfl | hc
    · exact hab
    · exact htrans a b c hab ((List.pairwise_cons.mp hrest).1 c hc)

/-! ## Files -/

/-- A mapping ends before another begins. -/
def SharedCacheMapping.Before (a b : SharedCacheMapping) : Prop :=
  a.address.toNat + a.size.toNat ≤ b.address.toNat

/-- What a mapping of a file is. -/
structure SharedCacheMapping.Placed (host : CacheHost) (mapping : SharedCacheMapping) : Prop where
  nonempty : 0 < mapping.size.toNat
  below : mapping.address.toNat + mapping.size.toNat < 2 ^ 64
  aligned : mapping.address.toNat % guestPageSize = 0 ∧ mapping.size.toNat % guestPageSize = 0 ∧
    mapping.fileOffset.toNat % guestPageSize = 0
  inFile : ∃ file, host.file mapping.sourcePath = .ok file ∧
    mapping.fileOffset.toNat + mapping.size.toNat ≤ file.size
  permitted : mapping.maximumPermissions.has mapping.initialPermissions = true
  slides : mapping.slideInfo ≠ [] →
    ∃ result, parseSlideInfo2 mapping.slideInfo mapping.size.toNat = .ok result

section

variable {host : CacheHost} {reader : FileReader}

theorem SharedCacheMapping.before_of_overlaps {a b : SharedCacheMapping}
    (ha : a.address.toNat + a.size.toNat < 2 ^ 64) (h : a.overlaps b = false) : a.Before b := by
  have hsum : (a.address + a.size).toNat = a.address.toNat + a.size.toNat := by
    rw [BitVec.toNat_add, Nat.mod_eq_of_lt ha]
  simp only [overlaps, gt_iff_lt, decide_eq_false_iff_not, BitVec.lt_def, hsum] at h
  exact not_lt.mp h

theorem parsePermissions_ensures (raw : BitVec 32) (description : String) :
    Ensures (parsePermissions raw description) fun permissions =>
      permissions = ⟨raw.getLsbD 0, raw.getLsbD 1, raw.getLsbD 2⟩ := by
  unfold parsePermissions
  exact .failIf_bind fun _ => .pure rfl

/-- Bits that are not beyond the maximum are permissions that it has. -/
theorem has_of_subset {rawMaximum rawInitial : BitVec 32}
    (h : rawInitial &&& ~~~rawMaximum = 0) :
    (Permission.mk (rawMaximum.getLsbD 0) (rawMaximum.getLsbD 1) (rawMaximum.getLsbD 2)).has
      ⟨rawInitial.getLsbD 0, rawInitial.getLsbD 1, rawInitial.getLsbD 2⟩ = true := by
  have hbit (i : Nat) (hi : i < 32) : (!rawInitial.getLsbD i || rawMaximum.getLsbD i) = true := by
    have hzero := congrArg (BitVec.getLsbD · i) h
    simp only [BitVec.getLsbD_and, BitVec.getLsbD_not, hi, decide_true, Bool.true_and] at hzero
    cases hinitial : rawInitial.getLsbD i <;> cases hmaximum : rawMaximum.getLsbD i <;>
      simp_all
  simp only [Permission.has, hbit 0 (by decide), hbit 1 (by decide), hbit 2 (by decide),
    Bool.and_self]

theorem parseMapping_ensures (hreader : host.file reader.path = .ok reader.file) (suffix : String)
    (table : List Byte) (index : Nat) :
    Ensures (parseMapping reader suffix table index) fun mapping => mapping.Placed host := by
  unfold parseMapping
  refine .skip fun address => .skip fun size => .skip fun fileOffset => .skip fun rawMaximum =>
    .skip fun rawInitial => .failIf_bind fun hrange => .failIf_bind fun hfile => ?_
  refine (parsePermissions_ensures _ _).bind fun maximumPermissions hmaximum => ?_
  refine (parsePermissions_ensures _ _).bind fun initialPermissions hinitial => ?_
  refine .failIf_bind fun hsubset => Ensures.pure ?_
  simp only [Bool.or_eq_false_iff, beq_eq_false_iff_ne, bne_eq_false_iff_eq,
    decide_eq_false_iff_not, not_lt] at hrange hfile hsubset
  obtain ⟨⟨⟨⟨hsize, haddress⟩, hsizes⟩, hoffset⟩, hbelow⟩ := hrange
  have hpos : size.toNat ≠ 0 := fun h => hsize (BitVec.eq_of_toNat_eq h)
  have hlt := size.isLt
  refine ⟨?_, ?_, ⟨haddress, hsizes, hoffset⟩, ⟨reader.file, hreader, ?_⟩, ?_,
    fun h => absurd rfl h⟩
  · exact Nat.pos_of_ne_zero hpos
  · dsimp only
    omega
  · dsimp only
    omega
  · rw [hmaximum, hinitial]
    exact has_of_subset hsubset

theorem readSlideInfo_ensures (mapping : SharedCacheMapping) :
    Ensures (readSlideInfo reader mapping) fun slideInfo => slideInfo ≠ [] →
      ∃ result, parseSlideInfo2 slideInfo mapping.size.toNat = .ok result := by
  unfold readSlideInfo
  split
  · exact Ensures.pure fun h => absurd rfl h
  · refine .skip fun slideInfo => ?_
    exact (Ensures.ask fun result hresult => hresult).bind fun result hresult =>
      Ensures.pure fun _ => ⟨result, hresult⟩

theorem parseSlideRecord_ensures {mapping : SharedCacheMapping} (h : mapping.Placed host)
    (slideTable : List Byte) (index : Nat) :
    Ensures (parseSlideRecord reader slideTable mapping index) fun mapping =>
      mapping.Placed host := by
  unfold parseSlideRecord
  refine .skip fun _ => .skip fun _ => .skip fun _ => .skip fun _ => .skip fun _ =>
    .failIf_bind fun _ => .skip fun _ => .skip fun _ => .skip fun _ => .failIf_bind fun _ =>
    .failIf_bind fun _ => ?_
  exact (readSlideInfo_ensures _).bind fun slideInfo hslide => Ensures.pure
    ⟨h.nonempty, h.below, h.aligned, h.inFile, h.permitted, hslide⟩

theorem parseSlideRecords_ensures (slideTable : List Byte) :
    ∀ (mappings : List SharedCacheMapping) (index : Nat), (∀ m ∈ mappings, m.Placed host) →
      Ensures (parseSlideRecords reader slideTable mappings index) fun mappings =>
        ∀ m ∈ mappings, m.Placed host
  | [], _, _ => fun _ hmem => absurd hmem List.not_mem_nil
  | mapping :: mappings, index, h => by
    refine (parseSlideRecord_ensures (h _ List.mem_cons_self) slideTable index).bind
      fun first hfirst => ?_
    refine (parseSlideRecords_ensures slideTable mappings (index + 1)
      fun m hm => h m (List.mem_cons_of_mem _ hm)).bind fun rest hrest => Ensures.pure ?_
    rintro m hmem
    rcases List.mem_cons.mp hmem with rfl | hmem
    · exact hfirst
    · exact hrest m hmem

theorem parseSlideTable_ensures (header : List Byte) (mappingCount : BitVec 32)
    {mappings : List SharedCacheMapping} (h : ∀ m ∈ mappings, m.Placed host) :
    Ensures (parseSlideTable reader header mappingCount mappings) fun mappings =>
      ∀ m ∈ mappings, m.Placed host := by
  unfold parseSlideTable
  refine .skip fun _ => .skip fun _ => .failIf_bind fun _ => ?_
  split
  · exact Ensures.pure h
  · exact .failIf_bind fun _ => .skip fun _ => .skip fun slideTable =>
      parseSlideRecords_ensures slideTable mappings 0 h

theorem mem_sortMappings {mappings : List SharedCacheMapping} {mapping : SharedCacheMapping} :
    mapping ∈ sortMappings mappings ↔ mapping ∈ mappings := List.mem_insertionSort _

/-- The dynamic data that a file reserves are whole pages. -/
def ParsedFile.ReservesPages (parsed : ParsedFile) : Prop :=
  parsed.dynamicDataSize ≠ 0 → 0x4000 ≤ parsed.dynamicDataSize.toNat ∧
    parsed.dynamicDataOffset.toNat % guestPageSize = 0 ∧
    parsed.dynamicDataSize.toNat % guestPageSize = 0

theorem parseHeader_ensures (mappingOffset : BitVec 32) (header : List Byte) :
    Ensures (parseHeader reader mappingOffset header) ParsedFile.ReservesPages := by
  unfold parseHeader
  refine .skip fun magic => ?_
  refine .skip fun _ => .skip fun _ => .skip fun _ => .skip fun _ => .skip fun _ => .skip fun _ =>
    .skip fun _ => .skip fun _ => .skip fun _ => .skip fun _ => .skip fun _ => .skip fun _ =>
    .skip fun _ => .skip fun _ => .skip fun _ => .skip fun _ => .skip fun dynamicDataOffset =>
    .skip fun dynamicDataSize => ?_
  unfold checkDynamicData
  refine Ensures.bind (R := fun _ => dynamicDataSize ≠ 0 → 0x4000 ≤ dynamicDataSize.toNat ∧
    dynamicDataOffset.toNat % guestPageSize = 0 ∧ dynamicDataSize.toNat % guestPageSize = 0) ?_
    fun _ hpages => Ensures.pure hpages
  refine .failIf_bind fun _ => Ensures.of_failIf fun hpages hne => ?_
  have hsize : (dynamicDataSize != 0) = true := by simpa using hne
  rw [hsize, Bool.true_and, Bool.or_eq_false_iff, Bool.or_eq_false_iff, decide_eq_false_iff_not,
    not_lt, bne_eq_false_iff_eq, bne_eq_false_iff_eq] at hpages
  exact ⟨hpages.1.1, hpages.1.2, hpages.2⟩

/-- The mappings of a file, and its dynamic data. -/
theorem parseFile_ensures (hreader : host.file reader.path = .ok reader.file) (suffix : String) :
    Ensures (parseFile reader suffix) fun parsed =>
      (∀ m ∈ parsed.mappings, m.Placed host) ∧ parsed.ReservesPages := by
  unfold parseFile
  refine .skip fun _ => .skip fun _ => .failIf_bind fun _ => .skip fun header => ?_
  refine (parseHeader_ensures _ header).bind fun parsed hparsed => ?_
  refine .skip fun mappingCount => .failIf_bind fun _ => .skip fun _ => .skip fun table => ?_
  refine (Ensures.forRecords (parseMapping_ensures hreader suffix table) 0 _).bind
    fun records hrecords => ?_
  refine (parseSlideTable_ensures header mappingCount hrecords).bind fun mappings hmappings => ?_
  refine .failIf_bind fun _ => Ensures.pure ⟨fun m hm => ?_, hparsed⟩
  exact hmappings m (mem_sortMappings.mp hm)

/-! ## Subcaches -/

/-- The files so far : their mappings are placed, and they have different suffixes. -/
structure FilesOk (host : CacheHost) (files : List SharedCacheFile) : Prop where
  placed : ∀ file ∈ files, ∀ m ∈ file.mappings, m.Placed host
  suffixes : (files.map SharedCacheFile.suffix).Nodup

theorem openReader_ensures (host : CacheHost) (path : String) :
    Ensures (openReader host path) fun reader => host.file reader.path = .ok reader.file :=
  (Ensures.ask fun _ hfile => hfile).bind fun _ hfile => Ensures.pure hfile

theorem openSubcache_ensures {path : String} {main : ParsedFile} {files : List SharedCacheFile}
    (h : FilesOk host files) (record : SubcacheRecord) :
    Ensures (openSubcache host path main files record) fun file =>
      FilesOk host (files ++ [file]) := by
  unfold openSubcache
  refine .failIf_bind fun hsuffix => ?_
  refine (openReader_ensures host _).bind fun reader hreader => ?_
  refine (parseFile_ensures hreader record.suffix).bind fun subcache hsubcache => ?_
  refine .raiseIf_bind fun _ => .raiseIf_bind fun _ => .raiseIf_bind fun _ =>
    .raiseIf_bind fun _ => Ensures.pure ⟨fun file hfile => ?_, ?_⟩
  · rcases List.mem_append.mp hfile with hfile | hfile
    · exact h.placed file hfile
    · rw [List.mem_singleton.mp hfile]
      exact hsubcache.1
  · rw [List.map_append, List.nodup_append]
    refine ⟨h.suffixes, List.nodup_singleton _, fun suffix hmem other hother => ?_⟩
    obtain ⟨file, hfile, rfl⟩ := List.mem_map.mp hmem
    rw [List.map_singleton, List.mem_singleton] at hother
    have hne := List.any_eq_false.mp hsuffix file hfile
    rw [hother]
    simpa using hne

theorem openSubcaches_ensures {path : String} {main : ParsedFile} {subcacheTable : List Byte} :
    ∀ (index count : Nat) {files : List SharedCacheFile}, FilesOk host files →
      Ensures (openSubcaches host path main subcacheTable index count files) (FilesOk host)
  | _, 0, _, h => Ensures.pure h
  | index, count + 1, _, h => .skip fun record =>
    (openSubcache_ensures h record).bind fun _ hfile =>
      openSubcaches_ensures (index + 1) count hfile

/-! ## The region -/

/-- The loop over the mappings has found them apart and in the region. -/
theorem checkMappings_ensures {regionStart regionEnd : BitVec 64} :
    ∀ {previous : Option SharedCacheMapping} {mappings : List SharedCacheMapping},
      (∀ m ∈ mappings, m.Placed host) → (∀ m ∈ previous, m.Placed host) →
      Ensures (checkMappings regionStart regionEnd previous mappings) fun _ =>
        (∀ m ∈ mappings, regionStart.toNat ≤ m.address.toNat ∧
          m.address.toNat + m.size.toNat ≤ regionEnd.toNat) ∧
        (previous.toList ++ mappings).Pairwise SharedCacheMapping.Before
  | previous, [], _, _ => by
    refine Ensures.pure ⟨fun m hm => absurd hm List.not_mem_nil, ?_⟩
    cases previous <;> simp
  | previous, mapping :: mappings, hplaced, hprevious => by
    have hmapping := hplaced mapping List.mem_cons_self
    unfold checkMappings
    refine .failIf_bind fun hregion => .failIf_bind fun hoverlap => ?_
    refine (checkMappings_ensures (fun m hm => hplaced m (List.mem_cons_of_mem _ hm))
      (fun m hm => ?_)).mono ?_
    · obtain rfl := Option.some.inj hm
      exact hmapping
    rintro _ ⟨hrest, hpairs⟩
    have hsum : (mapping.address + mapping.size).toNat =
        mapping.address.toNat + mapping.size.toNat := by
      rw [BitVec.toNat_add, Nat.mod_eq_of_lt hmapping.below]
    simp only [Bool.or_eq_false_iff, decide_eq_false_iff_not, BitVec.lt_def, hsum, not_lt]
      at hregion
    refine ⟨?_, ?_⟩
    · rintro m hm
      rcases List.mem_cons.mp hm with rfl | hm
      · exact hregion
      · exact hrest m hm
    · rw [Option.toList_some, List.singleton_append] at hpairs
      cases previous with
      | none => exact hpairs
      | some previous =>
        have hbefore : previous.Before mapping :=
          SharedCacheMapping.before_of_overlaps (hprevious previous rfl).below hoverlap
        refine List.pairwise_cons.mpr ⟨fun m hm => ?_, hpairs⟩
        rcases List.mem_cons.mp hm with rfl | hm
        · exact hbefore
        · have hnext := (List.pairwise_cons.mp hpairs).1 m hm
          unfold SharedCacheMapping.Before at hbefore hnext ⊢
          omega

/-! ## Images -/

/-- An image ends before another begins. -/
def ParsedImage.Before (a b : ParsedImage) : Prop :=
  a.loadAddress.toNat + a.textSize ≤ b.loadAddress.toNat

/-- The text of an image is in an executable mapping. -/
structure ParsedImage.Placed (mappings : List SharedCacheMapping) (image : ParsedImage) : Prop where
  nonempty : 0 < image.textSize
  below : image.loadAddress.toNat + image.textSize < 2 ^ 64
  executable : ∃ m ∈ mappings, m.initialPermissions.execute = true ∧
    image.sourceSuffix = m.sourceSuffix ∧ m.address.toNat ≤ image.loadAddress.toNat ∧
    image.loadAddress.toNat + image.textSize ≤ m.address.toNat + m.size.toNat

theorem locate_spec {mappings : List SharedCacheMapping} {address offset : BitVec 64} {size : Nat}
    {mapping : SharedCacheMapping} (h : locate mappings address size = some (mapping, offset)) :
    mapping ∈ mappings ∧ mapping.address.toNat ≤ address.toNat ∧
      address.toNat + size ≤ mapping.address.toNat + mapping.size.toNat ∧
      offset = mapping.fileOffset + address - mapping.address := by
  obtain ⟨found, hfind, hpair⟩ := Option.map_eq_some_iff.mp h
  obtain ⟨rfl, rfl⟩ := Prod.mk.inj hpair
  have hcontains := List.find?_some hfind
  unfold contains at hcontains
  split at hcontains
  · cases hcontains
  · next hnot =>
    simp only [Bool.or_eq_true, decide_eq_true_eq, not_or, not_lt, BitVec.lt_def] at hnot
    have hsub : (address - found.address).toNat = address.toNat - found.address.toNat :=
      BitVec.toNat_sub_of_le hnot.1
    rw [decide_eq_true_eq, hsub] at hcontains
    exact ⟨List.mem_of_find?_eq_some hfind, hnot.1, by omega, rfl⟩

theorem parseImage_ensures (reader : FileReader) (table legacyTable : List Byte)
    (mappings : List SharedCacheMapping) (index : Nat) :
    Ensures (parseImage reader table legacyTable mappings index) fun image =>
      image.Placed mappings := by
  unfold parseImage
  refine .skip fun address => .skip fun textSize => .skip fun pathOffset => .skip fun _ =>
    .failIf_bind fun hrange => ?_
  simp only [Bool.or_eq_false_iff, beq_eq_false_iff_ne, decide_eq_false_iff_not, not_lt] at hrange
  have hpos : textSize.toNat ≠ 0 := fun h => hrange.1 (BitVec.eq_of_toNat_eq h)
  have hlt := textSize.isLt
  split
  · exact Ensures.raise
  · next mapping offset hlocate =>
    obtain ⟨hmem, hlow, hhigh, -⟩ := locate_spec hlocate
    refine .failIf_bind fun hexecute => .skip fun uuid => .skip fun path => Ensures.pure ?_
    have hbelow : address.toNat + textSize.toNat < 2 ^ 64 := by omega
    refine ⟨Nat.pos_of_ne_zero hpos, hbelow, mapping, hmem, ?_, rfl, hlow, hhigh⟩
    simpa using hexecute

theorem ParsedImage.before_of_overlaps {mappings : List SharedCacheMapping} {a b : ParsedImage}
    (ha : a.Placed mappings) (h : overlapsImage a b = false) : a.Before b := by
  have hbelow := ha.below
  have hsum : (a.loadAddress + BitVec.ofNat 64 a.textSize).toNat =
      a.loadAddress.toNat + a.textSize := by
    rw [BitVec.toNat_add, BitVec.toNat_ofNat]
    omega
  simp only [overlapsImage, gt_iff_lt, decide_eq_false_iff_not, BitVec.lt_def, hsum] at h
  exact not_lt.mp h

theorem parseImages_ensures (reader : FileReader) (main : ParsedFile)
    (mappings : List SharedCacheMapping) :
    Ensures (parseImages reader main mappings) fun images =>
      (∀ image ∈ images, image.Placed mappings) ∧ images.Pairwise ParsedImage.Before := by
  unfold parseImages
  split
  · exact Ensures.pure ⟨fun image hmem => absurd hmem List.not_mem_nil, List.Pairwise.nil⟩
  · refine .failIf_bind fun _ => .skip fun table => .skip fun legacyTable => ?_
    refine (Ensures.forRecords (parseImage_ensures reader table legacyTable mappings) 0 _).bind
      fun images himages => ?_
    refine .failIf_bind fun hoverlap => Ensures.pure ?_
    have hplaced : ∀ image ∈ images.insertionSort fun lhs rhs => lhs.loadAddress ≤ rhs.loadAddress,
        image.Placed mappings := fun image hmem =>
      himages image ((List.mem_insertionSort _).mp hmem)
    refine ⟨hplaced, pairwise_of_anyAdjacent ?_ (fun a ha b _ h => ?_) hoverlap⟩
    · intro a b c hab hbc
      unfold ParsedImage.Before at *
      omega
    · exact ParsedImage.before_of_overlaps (hplaced a ha) h

end

/-! ## The cache -/

/-- What a cache is that was opened. -/
structure WellFormed (host : CacheHost) (cache : GuestSharedCache) : Prop where
  region : 0 < cache.regionSize.toNat ∧
    cache.regionStart.toNat + cache.regionSize.toNat < 2 ^ 64
  placed : ∀ m ∈ cache.mappings, m.Placed host ∧ cache.regionStart.toNat ≤ m.address.toNat ∧
    m.address.toNat + m.size.toNat ≤ cache.regionStart.toNat + cache.regionSize.toNat
  apart : cache.mappings.Pairwise SharedCacheMapping.Before
  all : cache.mappings.Perm (cache.files.flatMap SharedCacheFile.mappings)
  suffixes : (cache.files.map SharedCacheFile.suffix).Nodup
  images : ∀ image ∈ cache.images, image.Placed cache.mappings
  imagesApart : cache.images.Pairwise ParsedImage.Before
  reserved : cache.dynamicDataSize ≠ 0 → 0x4000 ≤ cache.dynamicDataSize.toNat ∧
    cache.dynamicDataSize.toNat % guestPageSize = 0 ∧
    (cache.dynamicDataAddress.toNat - cache.regionStart.toNat) % guestPageSize = 0
  dynamic : cache.dynamicDataSize ≠ 0 →
    cache.regionStart.toNat ≤ cache.dynamicDataAddress.toNat ∧
    cache.dynamicDataAddress.toNat + cache.dynamicDataSize.toNat ≤
      cache.regionStart.toNat + cache.regionSize.toNat ∧
    ∀ m ∈ cache.mappings,
      cache.dynamicDataAddress.toNat + cache.dynamicDataSize.toNat ≤ m.address.toNat ∨
        m.address.toNat + m.size.toNat ≤ cache.dynamicDataAddress.toNat
  dyld : cache.dyldMachHeader ≠ 0 ∨ cache.dyldEntryPoint ≠ 0 →
    (∃ m ∈ cache.mappings, m.address.toNat ≤ cache.dyldMachHeader.toNat ∧
      cache.dyldMachHeader.toNat + 8 ≤ m.address.toNat + m.size.toNat) ∧
    ∃ m ∈ cache.mappings, m.initialPermissions.execute = true ∧
      m.address.toNat ≤ cache.dyldEntryPoint.toNat ∧
      cache.dyldEntryPoint.toNat + 1 ≤ m.address.toNat + m.size.toNat

section

variable {host : CacheHost}

theorem checkRegion_ensures (main : ParsedFile) :
    Ensures (checkRegion main) fun _ =>
      0 < main.sharedRegionSize.toNat ∧
      main.sharedRegionStart.toNat + main.sharedRegionSize.toNat < 2 ^ 64 ∧
      (main.dynamicDataSize ≠ 0 →
        main.dynamicDataOffset.toNat + main.dynamicDataSize.toNat ≤
          main.sharedRegionSize.toNat) := by
  unfold checkRegion
  refine .failIf_bind fun hmetadata => .failIf_bind fun hoverflow => ?_
  refine Ensures.of_failIf fun hdynamic => ?_
  simp only [Bool.or_eq_false_iff, beq_eq_false_iff_ne, decide_eq_false_iff_not, not_lt]
    at hmetadata hoverflow
  have hpos : main.sharedRegionSize.toNat ≠ 0 := fun h =>
    hmetadata.1.2 (BitVec.eq_of_toNat_eq h)
  have hlt := main.sharedRegionSize.isLt
  refine ⟨Nat.pos_of_ne_zero hpos, by omega, fun hsize => ?_⟩
  have hne : (main.dynamicDataSize != 0) = true := by simpa using hsize
  rw [hne, Bool.true_and, Bool.or_eq_false_iff, decide_eq_false_iff_not, decide_eq_false_iff_not,
    BitVec.not_lt, BitVec.not_lt] at hdynamic
  have hsub := BitVec.toNat_sub_of_le hdynamic.1
  have hle : main.dynamicDataSize.toNat ≤
      (main.sharedRegionSize - main.dynamicDataOffset).toNat := hdynamic.2
  have hoffset : main.dynamicDataOffset.toNat ≤ main.sharedRegionSize.toNat := hdynamic.1
  omega

/-- Dynamic data that meet no mapping are apart from all. -/
theorem SharedCacheMapping.apart_of_meets {mapping : SharedCacheMapping}
    {dynamicDataAddress dynamicDataSize : BitVec 64}
    (hmapping : mapping.address.toNat + mapping.size.toNat < 2 ^ 64)
    (hdynamic : dynamicDataAddress.toNat + dynamicDataSize.toNat < 2 ^ 64)
    (h : mapping.meets dynamicDataAddress dynamicDataSize = false) :
    dynamicDataAddress.toNat + dynamicDataSize.toNat ≤ mapping.address.toNat ∨
      mapping.address.toNat + mapping.size.toNat ≤ dynamicDataAddress.toNat := by
  rw [meets, Bool.and_eq_false_iff, decide_eq_false_iff_not, decide_eq_false_iff_not,
    BitVec.lt_def, BitVec.lt_def, BitVec.toNat_add, BitVec.toNat_add,
    Nat.mod_eq_of_lt hmapping, Nat.mod_eq_of_lt hdynamic] at h
  omega

theorem checkDyld_ensures (main : ParsedFile) (mappings : List SharedCacheMapping) :
    Ensures (checkDyld host main mappings) fun _ =>
      main.dyldMachHeader ≠ 0 ∨ main.dyldEntryPoint ≠ 0 →
        (∃ m ∈ mappings, m.address.toNat ≤ main.dyldMachHeader.toNat ∧
          main.dyldMachHeader.toNat + 8 ≤ m.address.toNat + m.size.toNat) ∧
        ∃ m ∈ mappings, m.initialPermissions.execute = true ∧
          m.address.toNat ≤ main.dyldEntryPoint.toNat ∧
          main.dyldEntryPoint.toNat + 1 ≤ m.address.toNat + m.size.toNat := by
  unfold checkDyld
  split
  · next hzero =>
    refine Ensures.pure fun hne => ?_
    rcases hne with hne | hne
    · exact absurd hzero.1 hne
    · exact absurd hzero.2 hne
  · split
    · next mapping offset entry entryOffset hheader hentry =>
      obtain ⟨hmem, hlow, hhigh, -⟩ := locate_spec hheader
      obtain ⟨hmem', hlow', hhigh', -⟩ := locate_spec hentry
      refine .raiseIf_bind fun hexecute => .skip fun _ => .skip fun _ => .skip fun _ =>
        .skip fun _ => Ensures.of_raiseIf fun _ _ => ?_
      exact ⟨⟨mapping, hmem, hlow, hhigh⟩, entry, hmem', by simpa using hexecute, hlow', hhigh'⟩
    · exact Ensures.raise

/-- What `open` ensures of the cache that it returns. -/
theorem openCache_ensures (path : String) :
    Ensures (openCache host path) fun cache => WellFormed host cache := by
  unfold openCache
  refine (openReader_ensures host path).bind fun reader hreader => ?_
  refine (parseFile_ensures hreader "").bind fun main hmain => ?_
  refine (checkRegion_ensures main).bind fun _ hregion => ?_
  obtain ⟨hsize, hbelow, hdynamic⟩ := hregion
  have hend : (main.sharedRegionStart + main.sharedRegionSize).toNat =
      main.sharedRegionStart.toNat + main.sharedRegionSize.toNat := by
    rw [BitVec.toNat_add, Nat.mod_eq_of_lt hbelow]
  refine .skip fun identity => .skip fun mainReader => .skip fun _ =>
    .skip fun subcacheTable => ?_
  have hfirst : FilesOk host
      [{ path, suffix := "", uuid := main.uuid, mappings := main.mappings }] := by
    refine ⟨fun file hfile => ?_, List.nodup_singleton _⟩
    rw [List.mem_singleton.mp hfile]
    exact hmain.1
  refine (openSubcaches_ensures 0 main.subcacheCount.toNat hfirst).bind fun files hfiles => ?_
  have hplaced : ∀ m ∈ sortMappings (files.flatMap SharedCacheFile.mappings), m.Placed host := by
    intro m hm
    obtain ⟨file, hfile, hm⟩ := List.mem_flatMap.mp (mem_sortMappings.mp hm)
    exact hfiles.placed file hfile m hm
  have hnone : ∀ m ∈ (none : Option SharedCacheMapping), m.Placed host := fun m hm =>
    absurd hm (Option.not_mem_none m)
  refine (checkMappings_ensures hplaced hnone).bind fun _ hmappings => ?_
  refine .failIf_bind fun hmeets => ?_
  refine (parseImages_ensures mainReader main _).bind fun images himages => ?_
  refine (checkDyld_ensures main _).bind fun _ hdyld => Ensures.pure ?_
  rw [hend] at hmappings
  have hstart (hne : main.dynamicDataSize ≠ 0) :
      (main.sharedRegionStart + main.dynamicDataOffset).toNat =
        main.sharedRegionStart.toNat + main.dynamicDataOffset.toNat := by
    have := hdynamic hne
    rw [BitVec.toNat_add, Nat.mod_eq_of_lt (by omega)]
  exact
    { region := ⟨hsize, hbelow⟩
      placed := fun m hm => ⟨hplaced m hm, hmappings.1 m hm⟩
      apart := hmappings.2
      all := List.perm_insertionSort _ _
      suffixes := hfiles.suffixes
      images := himages.1
      imagesApart := himages.2
      reserved := fun hne => by
        obtain ⟨hlarge, hoffset, hpages⟩ := hmain.2 hne
        refine ⟨hlarge, hpages, ?_⟩
        simp only [if_neg hne, hstart hne, Nat.add_sub_cancel_left]
        exact hoffset
      dynamic := fun hne => by
        have hinside := hdynamic hne
        have hend := hstart hne
        have hany : (main.dynamicDataSize != 0) = true := by simpa using hne
        rw [hany, Bool.true_and, List.any_eq_false] at hmeets
        simp only [if_neg hne] at hmeets ⊢
        refine ⟨by omega, by omega, fun m hm => ?_⟩
        exact SharedCacheMapping.apart_of_meets (hplaced m hm).below (by omega)
          (Bool.eq_false_iff.mpr (hmeets m hm))
      dyld := hdyld }

end

/-- A cache that was opened is well formed : its mappings are parts of their files, apart from each
other and from the dynamic data, in the shared region, and each image is the text of one executable
mapping. -/
theorem openCache_wellFormed {host : CacheHost} {path : String} {cache : GuestSharedCache}
    (h : openCache host path () = (.ok cache, ())) : WellFormed host cache :=
  Ensures.of_ok (openCache_ensures path) h

/-- A cache of one page with the text of one image. -/
def onePageCache : HostFile where
  size := 0x1000
  bytes := [(0, ascii "dyld_v1  x86_64"), (0x10, [0x98, 1]), (0x14, [1]), (0x88, [0xB8, 1]),
    (0x90, [1]), (0xE2, [1]), (0xEA, [1]), (0x19A, [1]), (0x1A1, [0x10]), (0x1B0, [5]),
    (0x1B4, [5]), (0x1C9, [1, 1]), (0x1D1, [2]), (0x1D4, [0xFE, 0xF]), (0xFFE, ascii "a")].foldl
      (fun contents field => overwrite contents field.1 field.2) fun _ => 0
  small := by decide

/-- A host with that file only. -/
def onePageHost : CacheHost where
  file := fun _ => .ok onePageCache
  identity := fun path => .ok ⟨1, 2, path⟩

theorem openCache_onePage :
    ∃ cache, openCache onePageHost "cache" () = (.ok cache, ()) ∧
      cache.mappings.length = 1 ∧ cache.dynamicDataSize = 0 ∧
      cache.images.map ParsedImage.toSharedCacheImage = [⟨0, 0x10100, 0x200⟩] := by
  have hopened : ((openCache onePageHost "cache" ()).1.toOption.map fun cache =>
      (cache.mappings.length, cache.dynamicDataSize,
        cache.images.map ParsedImage.toSharedCacheImage)) =
          some (1, 0, [⟨0, 0x10100, 0x200⟩]) := by decide +kernel
  cases hopen : (openCache onePageHost "cache" ()).1 with
  | error message =>
    rw [hopen] at hopened
    cases hopened
  | ok cache =>
    rw [hopen] at hopened
    obtain ⟨hmappings, hrest⟩ := Prod.mk.inj (Option.some.inj hopened)
    obtain ⟨hdynamic, himages⟩ := Prod.mk.inj hrest
    exact ⟨cache, Prod.ext hopen (Subsingleton.elim _ _), hmappings, hdynamic, himages⟩

theorem openCache_wellFormed_onePage :
    ∃ cache, openCache onePageHost "cache" () = (.ok cache, ()) ∧
      cache.mappings.length = 1 ∧ WellFormed onePageHost cache := by
  obtain ⟨cache, hopen, hlength, -⟩ := openCache_onePage
  exact ⟨cache, hopen, hlength, openCache_wellFormed hopen⟩

/-! ## Images of addresses -/

section

variable {mappings : List SharedCacheMapping} {images : List ParsedImage}

/-- The last image that does not begin after an address in an image is that image. -/
theorem getLast?_takeWhile (hplaced : ∀ image ∈ images, image.Placed mappings)
    (hapart : images.Pairwise ParsedImage.Before) {address : GuestAddress} {image : ParsedImage}
    (hmem : image ∈ images) (hlow : image.loadAddress.toNat ≤ address.toNat)
    (hhigh : address.toNat < image.loadAddress.toNat + image.textSize) :
    (images.takeWhile fun image => image.loadAddress ≤ address).getLast? = some image := by
  obtain ⟨before, after, rfl⟩ := List.append_of_mem hmem
  obtain ⟨-, hafter, hbefore⟩ := List.pairwise_append.mp hapart
  have hstart : ∀ other ∈ before, decide (other.loadAddress ≤ address) = true := by
    intro other hother
    have hle : other.Before image := hbefore other hother image List.mem_cons_self
    unfold ParsedImage.Before at hle
    exact decide_eq_true (show other.loadAddress.toNat ≤ address.toNat by omega)
  have hrest : (after.takeWhile fun image => image.loadAddress ≤ address) = [] := by
    cases after with
    | nil => rfl
    | cons next after =>
      have hle : image.Before next := (List.pairwise_cons.mp hafter).1 next List.mem_cons_self
      unfold ParsedImage.Before at hle
      refine List.takeWhile_cons_of_neg ?_
      rw [decide_eq_true_eq, BitVec.le_def]
      omega
  have hself : decide (image.loadAddress ≤ address) = true := decide_eq_true hlow
  rw [List.takeWhile_append_of_pos hstart, List.takeWhile_cons, if_pos hself, hrest]
  exact List.getLast?_concat

/-- `imageForAddress` finds the image whose text the address is in, if there is one. -/
theorem imageForAddress_eq (hplaced : ∀ image ∈ images, image.Placed mappings)
    (hapart : images.Pairwise ParsedImage.Before) (address : GuestAddress)
    (image : SharedCacheImage) :
    Dispatcher.imageForAddress (images.map ParsedImage.toSharedCacheImage) address = some image ↔
      image ∈ images.map ParsedImage.toSharedCacheImage ∧
        image.loadAddress.toNat ≤ address.toNat ∧
        address.toNat < image.loadAddress.toNat + image.textSize := by
  have hwhile : (images.map ParsedImage.toSharedCacheImage).takeWhile
        (fun image => image.loadAddress ≤ address) =
      (images.takeWhile fun image => image.loadAddress ≤ address).map
        ParsedImage.toSharedCacheImage := by
    rw [List.takeWhile_map]
    rfl
  unfold Dispatcher.imageForAddress
  rw [hwhile, List.getLast?_map, Option.filter_eq_some_iff, Option.map_eq_some_iff]
  constructor
  · rintro ⟨⟨found, hlast, rfl⟩, hsize⟩
    have hmem := List.mem_of_getLast? hlast
    have hlow : found.loadAddress ≤ address := by simpa using List.mem_takeWhile_imp hmem
    have hsub := BitVec.toNat_sub_of_le hlow
    rw [decide_eq_true_eq, hsub] at hsize
    have hle : found.loadAddress.toNat ≤ address.toNat := hlow
    exact ⟨List.mem_map_of_mem ((List.takeWhile_sublist _).mem hmem), hle, by omega⟩
  · rintro ⟨hmem, hlow, hhigh⟩
    obtain ⟨found, hfound, rfl⟩ := List.mem_map.mp hmem
    have hsub := BitVec.toNat_sub_of_le (BitVec.le_def.mpr hlow)
    refine ⟨⟨found, getLast?_takeWhile hplaced hapart hfound hlow hhigh, rfl⟩, ?_⟩
    rw [decide_eq_true_eq, hsub]
    omega

end

/-- In a cache that was opened, `imageForAddress` finds an image exactly for the addresses in its
text. -/
theorem imageForAddress_openCache {host : CacheHost} {path : String} {cache : GuestSharedCache}
    (h : openCache host path () = (.ok cache, ())) (address : GuestAddress)
    (image : SharedCacheImage) :
    Dispatcher.imageForAddress (cache.images.map ParsedImage.toSharedCacheImage) address =
        some image ↔
      image ∈ cache.images.map ParsedImage.toSharedCacheImage ∧
        image.loadAddress.toNat ≤ address.toNat ∧
        address.toNat < image.loadAddress.toNat + image.textSize := by
  have hcache : WellFormed host cache := Ensures.of_ok (openCache_ensures path) h
  exact imageForAddress_eq hcache.images hcache.imagesApart address image

theorem imageForAddress_openCache_onePage :
    ∃ cache, openCache onePageHost "cache" () = (.ok cache, ()) ∧
      Dispatcher.imageForAddress (cache.images.map ParsedImage.toSharedCacheImage) 0x102FF =
        some ⟨0, 0x10100, 0x200⟩ := by
  obtain ⟨cache, hopen, -, -, himages⟩ := openCache_onePage
  refine ⟨cache, hopen, (imageForAddress_openCache hopen _ _).mpr ?_⟩
  rw [himages]
  decide

end GuestSharedCache

end Rosa.Darwin
