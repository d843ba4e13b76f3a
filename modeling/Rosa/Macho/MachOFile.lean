import Rosa.Logic.Codec

/-!
# Mach-O files

`macho/MachOFile.cpp`. A file, or the x86-64 slice of a universal file, is a header, load
commands and what the segments among the commands refer to. All offsets and sizes come from
the file; an accessor checks its range before it indexes. Here an index outside the bytes
throws `outsideBytes`, which is no error of the source : no file leads to it
(`parse_spec`).

The parser fills the file in place, so it is a computation on the file; the host sizes it
compares with are natural numbers.
-/

namespace Rosa

namespace Macho

open Rosa.Computation

/-! ## The file -/

def lcSegment64 : BitVec 32 := 0x19
def lcUnixThread : BitVec 32 := 0x5
def lcUuid : BitVec 32 := 0x1B
def lcMain : BitVec 32 := 0x80000028
def mhExecute : BitVec 32 := 0x2
def mhDylinker : BitVec 32 := 0x7
def machMagic64 : BitVec 32 := 0xFEEDFACF
def cpuTypeX86_64 : BitVec 32 := 0x01000007
def vmProtectionMask : BitVec 32 := 0x7
def headerSize64 : Nat := 32
def segmentCommandSize64 : Nat := 72
def sectionSize64 : Nat := 80

/-- `Segment`; the name is its bytes. -/
structure Segment where
  name : List Byte
  virtualAddress : Nat
  virtualSize : Nat
  fileOffset : Nat
  fileSize : Nat
  maximumProtection : BitVec 32
  initialProtection : BitVec 32
  deriving DecidableEq, Repr

/-- `LoadCommand`. -/
structure LoadCommand where
  command : BitVec 32
  size : Nat
  fileOffset : Nat
  deriving DecidableEq, Repr

/-- `MachOFile`. -/
structure MachOFile where
  bytes : List Byte := []
  cpuType : BitVec 32 := 0
  fileType : BitVec 32 := 0
  segments : List Segment := []
  loadCommands : List LoadCommand := []
  uuid : Option (List Byte) := none
  mainEntryFileOffset : Option Nat := none
  unixThreadEntry : Option Nat := none
  deriving DecidableEq, Repr

/-- What a parser throws : the message of the source, or that it left the bytes. -/
inductive ParseError
  | thrown (message : String)
  | outsideBytes
  deriving DecidableEq, Repr

/-- A parser fills a file. -/
abbrev Parser (α : Type) := Computation MachOFile ParseError α

/-! ## Fields -/

def fail {α : Type} (message : String) : Parser α := raise (.thrown message)

def failIf (condition : Bool) (message : String) : Parser Unit :=
  raiseIf condition (.thrown message)

/-- `requireRange`. -/
def requireRange (bytes : List Byte) (offset size : Nat) (description : String) : Parser Unit :=
  failIf (bytes.length < offset || bytes.length - offset < size)
    ("malformed Mach-O: out-of-range " ++ description)

/-- The bytes at `offset`, indexed without a check. -/
def slice (bytes : List Byte) (offset size : Nat) : Parser (List Byte) := do
  raiseIf (bytes.length < offset + size) .outsideBytes
  pure ((bytes.drop offset).take size)

/-- `readU32`, `readU64`, `readBigU32` and `readBigU64` : the bytes of a field, after the check of
their range, as a word. -/
def readField (w size : Nat) (bigEndian : Bool) (description : String) (bytes : List Byte)
    (offset : Nat) : Parser (BitVec w) := do
  requireRange bytes offset size description
  let field ← slice bytes offset size
  pure (ofLittleEndian w size (if bigEndian then field.reverse else field))

/-- `readU32`. -/
def readU32 : List Byte → Nat → Parser (BitVec 32) := readField 32 4 false "32-bit field"

/-- `readU64`. -/
def readU64 : List Byte → Nat → Parser (BitVec 64) := readField 64 8 false "64-bit field"

/-- `readBigU32`. -/
def readBigU32 : List Byte → Nat → Parser (BitVec 32) := readField 32 4 true "fat 32-bit field"

/-- `readBigU64`. -/
def readBigU64 : List Byte → Nat → Parser (BitVec 64) := readField 64 8 true "fat 64-bit field"

/-- `readFixedString` : the bytes up to the first zero. -/
def readFixedString (bytes : List Byte) (offset size : Nat) : Parser (List Byte) := do
  requireRange bytes offset size "fixed string"
  let field ← slice bytes offset size
  pure (field.takeWhile (· != 0))

/-- `addOverflows`. -/
def addOverflows (lhs rhs : Nat) : Bool := 2 ^ 64 - 1 - rhs < lhs

/-! ## Universal files -/

/-- A word of 64 bits in a table of a `fat64` file, and of 32 bits in another one. -/
def readBig (fat64 : Bool) (bytes : List Byte) (offset : Nat) : Parser Nat := do
  if fat64 then
    let value ← readBigU64 bytes offset
    pure value.toNat
  else
    let value ← readBigU32 bytes offset
    pure value.toNat

/-- The loop of `selectX86Slice`, from the entry at `index` on, with the count of entries left. -/
def selectEntry (bytes : List Byte) (fat64 : Bool) (architectureSize : Nat) :
    Nat → Nat → Parser (List Byte)
  | _, 0 => fail "universal Mach-O has no x86_64 slice"
  | index, remaining + 1 => do
    let offset := 8 + index * architectureSize
    let cpuType ← readBigU32 bytes offset
    if cpuType ≠ cpuTypeX86_64 then selectEntry bytes fat64 architectureSize (index + 1) remaining
    else
      let sliceOffset ← readBig fat64 bytes (offset + 8)
      let sliceSize ← readBig fat64 bytes (offset + if fat64 then 16 else 12)
      failIf (bytes.length < sliceOffset || bytes.length - sliceOffset < sliceSize)
        "malformed universal Mach-O x86_64 slice range"
      slice bytes sliceOffset sliceSize

/-- `selectX86Slice`. -/
def selectX86Slice (bytes : List Byte) : Parser (List Byte) := do
  requireRange bytes 0 4 "magic"
  let magic ← readU32 bytes 0
  if magic = machMagic64 then pure bytes
  else
    let first ← slice bytes 0 4
    let fat32 := first == [0xCA, 0xFE, 0xBA, 0xBE]
    let fat64 := first == [0xCA, 0xFE, 0xBA, 0xBF]
    failIf (!fat32 && !fat64)
      "unsupported Mach-O magic (expected MH_MAGIC_64 or a universal binary)"
    requireRange bytes 0 8 "fat header"
    let architectureCount ← readBigU32 bytes 4
    let architectureSize := if fat64 then 32 else 20
    failIf ((bytes.length - 8) / architectureSize < architectureCount.toNat)
      "malformed universal Mach-O architecture table"
    selectEntry bytes fat64 architectureSize 0 architectureCount.toNat

/-! ## Load commands -/

/-- `LC_SEGMENT_64`. -/
def parseSegment (view : List Byte) (cursor commandSize : Nat) : Parser Unit := do
  failIf (commandSize < segmentCommandSize64) "malformed Mach-O: short LC_SEGMENT_64"
  let sectionCount ← readU32 view (cursor + 64)
  failIf ((commandSize - segmentCommandSize64) / sectionSize64 < sectionCount.toNat)
    "malformed Mach-O: LC_SEGMENT_64 sections exceed command"
  let name ← readFixedString view (cursor + 8) 16
  let virtualAddress ← readU64 view (cursor + 24)
  let virtualSize ← readU64 view (cursor + 32)
  let fileOffset ← readU64 view (cursor + 40)
  let fileSize ← readU64 view (cursor + 48)
  let maximumProtection ← readU32 view (cursor + 56)
  let initialProtection ← readU32 view (cursor + 60)
  failIf (virtualSize.toNat < fileSize.toNat ||
      addOverflows virtualAddress.toNat virtualSize.toNat ||
      addOverflows fileOffset.toNat fileSize.toNat ||
      view.length < fileOffset.toNat + fileSize.toNat)
    "malformed Mach-O: invalid segment range"
  failIf (maximumProtection &&& ~~~vmProtectionMask != 0 ||
      initialProtection &&& ~~~vmProtectionMask != 0)
    "malformed Mach-O: segment contains unsupported protection bits"
  failIf (initialProtection &&& ~~~maximumProtection != 0)
    "malformed Mach-O: segment initial protection exceeds maximum protection"
  modify fun file =>
    { file with
      segments := file.segments ++ [
        { name, virtualAddress := virtualAddress.toNat, virtualSize := virtualSize.toNat
          fileOffset := fileOffset.toNat, fileSize := fileSize.toNat
          maximumProtection, initialProtection }] }

/-- `LC_MAIN`. -/
def parseMain (view : List Byte) (cursor commandSize : Nat) : Parser Unit := do
  failIf (commandSize < 24) "malformed Mach-O: short LC_MAIN"
  let offset ← readU64 view (cursor + 8)
  modify fun file => { file with mainEntryFileOffset := some offset.toNat }

/-- `LC_UUID`. -/
def parseUuid (view : List Byte) (cursor commandSize : Nat) : Parser Unit := do
  failIf (commandSize < 24) "malformed Mach-O: short LC_UUID"
  let file ← get
  failIf file.uuid.isSome "malformed Mach-O: duplicate LC_UUID"
  let uuid ← slice view (cursor + 8) 16
  modify fun file => { file with uuid := some uuid }

/-- `LC_UNIXTHREAD` : flavor and count, sixteen registers, then RIP. -/
def parseUnixThread (view : List Byte) (cursor commandSize : Nat) : Parser Unit := do
  let ripOffset := 16 + 16 * 8
  if ripOffset + 8 ≤ commandSize then
    let flavor ← readU32 view (cursor + 8)
    if flavor = 4 then
      let count ← readU32 view (cursor + 12)
      if count = 42 then
        let rip ← readU64 view (cursor + ripOffset)
        modify fun file => { file with unixThreadEntry := some rip.toNat }
      else pure ()
    else pure ()
  else pure ()

/-- What `parse` does with a command. -/
def parseBody (view : List Byte) (command : BitVec 32) (cursor commandSize : Nat) :
    Parser Unit :=
  if command = lcSegment64 then parseSegment view cursor commandSize
  else if command = lcMain then parseMain view cursor commandSize
  else if command = lcUuid then parseUuid view cursor commandSize
  else if command = lcUnixThread then parseUnixThread view cursor commandSize
  else pure ()

/-- A turn of the loop of `parse` : the cursor after the command. -/
def parseCommand (view : List Byte) (commandEnd cursor : Nat) : Parser Nat := do
  requireRange view cursor 8 "load-command header"
  let command ← readU32 view cursor
  let commandSize ← readU32 view (cursor + 4)
  failIf (commandSize.toNat < 8 || commandEnd - cursor < commandSize.toNat)
    "malformed Mach-O: invalid load-command size"
  modify fun file =>
    { file with loadCommands := file.loadCommands ++ [⟨command, commandSize.toNat, cursor⟩] }
  parseBody view command cursor commandSize.toNat
  pure (cursor + commandSize.toNat)

/-- The loop of `parse`. -/
def parseCommands (view : List Byte) (commandEnd : Nat) : Nat → Nat → Parser Nat
  | 0, cursor => pure cursor
  | remaining + 1, cursor => do
    let cursor ← parseCommand view commandEnd cursor
    parseCommands view commandEnd remaining cursor

/-- The body of `parse`. -/
def parseFile (bytes : List Byte) : Parser Unit := do
  let view ← selectX86Slice bytes
  requireRange view 0 headerSize64 "64-bit header"
  let magic ← readU32 view 0
  failIf (magic != machMagic64) "unsupported Mach-O magic (expected little-endian MH_MAGIC_64)"
  let cpuType ← readU32 view 4
  let fileType ← readU32 view 12
  modify fun file => { file with bytes := view, cpuType, fileType }
  failIf (cpuType != cpuTypeX86_64) "Mach-O is not x86_64"
  failIf (fileType != mhExecute && fileType != mhDylinker)
    "Mach-O is neither an executable nor a dynamic linker"
  let commandCount ← readU32 view 16
  let commandBytes ← readU32 view 20
  requireRange view headerSize64 commandBytes.toNat "load-command region"
  let commandEnd := headerSize64 + commandBytes.toNat
  let cursor ← parseCommands view commandEnd commandCount.toNat headerSize64
  failIf (cursor != commandEnd) "malformed Mach-O: load-command count/size mismatch"

/-- `MachOFile::parse`. -/
def parse (bytes : List Byte) : Except ParseError MachOFile :=
  let result := parseFile bytes {}
  result.1.map fun _ => result.2

/-- `entryPoint`. -/
def MachOFile.entryPoint (file : MachOFile) : Except String Nat :=
  match file.mainEntryFileOffset, file.unixThreadEntry with
  | some offset, _ =>
    let inside := file.segments.find? fun segment =>
      segment.fileOffset ≤ offset && offset < (segment.fileOffset + segment.fileSize) % 2 ^ 64
    match inside with
    | some segment => .ok ((segment.virtualAddress + (offset - segment.fileOffset)) % 2 ^ 64)
    | none => .error "LC_MAIN entry offset is not inside a file-backed segment"
  | none, some entry => .ok entry
  | none, none => .error "Mach-O has neither LC_MAIN nor a usable LC_UNIXTHREAD entry"

/-! ## What is accepted -/

/-- The commands stand one after the other from `start` to `finish`. -/
def Tiles : Nat → List LoadCommand → Nat → Prop
  | start, [], finish => start = finish
  | start, command :: commands, finish =>
    command.fileOffset = start ∧ 8 ≤ command.size ∧ Tiles (start + command.size) commands finish

theorem Tiles.append {command : LoadCommand} (hsize : 8 ≤ command.size) :
    ∀ {start finish : Nat} {commands : List LoadCommand}, Tiles start commands finish →
      command.fileOffset = finish →
        Tiles start (commands ++ [command]) (finish + command.size)
  | _, _, [], h, hoffset => by
    obtain rfl : _ = _ := h
    exact ⟨hoffset, hsize, rfl⟩
  | _, _, _ :: _, h, hoffset => ⟨h.1, h.2.1, Tiles.append hsize h.2.2 hoffset⟩

/-- The ranges of a segment are there. -/
structure Segment.Valid (length : Nat) (segment : Segment) : Prop where
  size : segment.fileSize ≤ segment.virtualSize
  addresses : segment.virtualAddress + segment.virtualSize < 2 ^ 64
  file : segment.fileOffset + segment.fileSize ≤ length
  protection : segment.initialProtection &&& ~~~segment.maximumProtection = 0

/-- The size of the load commands, in the header. -/
def sizeOfCommands (bytes : List Byte) : Nat :=
  (ofLittleEndian 32 4 ((bytes.drop 20).take 4)).toNat

/-- A file that is accepted : a part of the bytes, tiled by its commands after the header, with
segments that are there. -/
structure Accepted (bytes : List Byte) (file : MachOFile) : Prop where
  part : file.bytes <:+: bytes
  region : headerSize64 + sizeOfCommands file.bytes ≤ file.bytes.length
  tiles : Tiles headerSize64 file.loadCommands (headerSize64 + sizeOfCommands file.bytes)
  segments : ∀ segment ∈ file.segments, segment.Valid file.bytes.length

/-! ## No parser leaves the bytes -/

/-- A throw of the source. -/
def Safe (e : ParseError) (_ : MachOFile) : Prop := e ≠ .outsideBytes

variable {α : Type} {file : MachOFile} {bytes view : List Byte} {offset size cursor : Nat}

theorem failIf_bind {condition : Bool} {message : String} {f : Unit → Parser α}
    {Q : α → MachOFile → Prop} (h : condition = false → Post (f ()) file Q Safe) :
    Post (failIf condition message >>= f) file Q Safe :=
  Post.bind (Post.raiseIf (fun _ => by simp [Safe]) h)

theorem requireRange_bind {description : String} {f : Unit → Parser α}
    {Q : α → MachOFile → Prop} (h : offset + size ≤ bytes.length → Post (f ()) file Q Safe) :
    Post (requireRange bytes offset size description >>= f) file Q Safe := by
  refine failIf_bind fun hc => h ?_
  simp only [Bool.or_eq_false_iff, decide_eq_false_iff_not, not_lt] at hc
  omega

theorem slice_bind {f : List Byte → Parser α} {Q : α → MachOFile → Prop}
    (hinside : offset + size ≤ bytes.length)
    (h : Post (f ((bytes.drop offset).take size)) file Q Safe) :
    Post (slice bytes offset size >>= f) file Q Safe := by
  refine Post.bind (Post.bind (Post.raiseIf (fun hc => ?_) fun _ => Post.pure h))
  simp only [decide_eq_true_eq] at hc
  omega

theorem readField_bind {w : Nat} {bigEndian : Bool} {description : String}
    {f : BitVec w → Parser α} {Q : α → MachOFile → Prop}
    (h : ∀ value, offset + size ≤ bytes.length →
      (bigEndian = false → value = ofLittleEndian w size ((bytes.drop offset).take size)) →
        Post (f value) file Q Safe) :
    Post (readField w size bigEndian description bytes offset >>= f) file Q Safe := by
  refine Post.bind (requireRange_bind fun hinside => slice_bind hinside ?_)
  refine Post.pure (h _ hinside ?_)
  rintro rfl
  rfl

theorem readFixedString_bind {f : List Byte → Parser α} {Q : α → MachOFile → Prop}
    (h : ∀ string, Post (f string) file Q Safe) :
    Post (readFixedString bytes offset size >>= f) file Q Safe :=
  Post.bind (requireRange_bind fun hinside => slice_bind hinside (Post.pure (h _)))

theorem readBig_bind {fat64 : Bool} {f : Nat → Parser α} {Q : α → MachOFile → Prop}
    (h : ∀ value, Post (f value) file Q Safe) :
    Post (readBig fat64 bytes offset >>= f) file Q Safe := by
  refine Post.bind ?_
  cases fat64 with
  | false => exact readField_bind fun value _ _ => Post.pure (h _)
  | true => exact readField_bind fun value _ _ => Post.pure (h _)

theorem isInfix_slice : (bytes.drop offset).take size <:+: bytes :=
  (List.take_prefix _ _).isInfix.trans (List.drop_suffix _ _).isInfix

/-! ## What the slice is -/

theorem selectEntry_spec {fat64 : Bool} {architectureSize : Nat} : ∀ {remaining index : Nat},
    Post (selectEntry bytes fat64 architectureSize index remaining) file
      (fun slice file' => file' = file ∧ slice <:+: bytes) Safe
  | 0, _ => by
    unfold selectEntry
    exact Post.raise (by intro h; cases h)
  | remaining + 1, index => by
    unfold selectEntry
    refine readField_bind fun cpuType _ _ => ?_
    split
    · exact selectEntry_spec
    · refine readBig_bind fun sliceOffset => readBig_bind fun sliceSize => ?_
      refine failIf_bind fun hc => ?_
      simp only [Bool.or_eq_false_iff, decide_eq_false_iff_not, not_lt] at hc
      unfold slice
      refine Post.bind (Post.raiseIf (fun hout => ?_) fun _ => ⟨rfl, isInfix_slice⟩)
      simp only [decide_eq_true_eq] at hout
      omega

theorem selectX86Slice_spec : Post (selectX86Slice bytes) file
    (fun slice file' => file' = file ∧ slice <:+: bytes) Safe := by
  unfold selectX86Slice
  refine requireRange_bind fun hfour => readField_bind fun magic _ _ => ?_
  split
  · exact ⟨rfl, List.infix_rfl⟩
  · refine slice_bind hfour (failIf_bind fun _ => requireRange_bind fun _ => ?_)
    exact readField_bind fun count _ _ => failIf_bind fun _ => selectEntry_spec

/-! ## What the commands are -/

/-- A command that is parsed leaves the commands and adds only segments that are there. -/
structure Extends (view : List Byte) (file file' : MachOFile) : Prop where
  bytes : file'.bytes = file.bytes
  commands : file'.loadCommands = file.loadCommands
  segments : ∀ segment ∈ file'.segments, segment ∈ file.segments ∨ segment.Valid view.length

theorem Extends.refl : Extends view file file := ⟨rfl, rfl, fun _ h => .inl h⟩

theorem parseSegment_spec {commandSize : Nat} : Post (parseSegment view cursor commandSize) file
    (fun _ file' => Extends view file file') Safe := by
  unfold parseSegment
  refine failIf_bind fun _ => readField_bind fun sectionCount _ _ => failIf_bind fun _ => ?_
  refine readFixedString_bind fun name => ?_
  refine readField_bind fun virtualAddress _ _ => readField_bind fun virtualSize _ _ => ?_
  refine readField_bind fun fileOffset _ _ => readField_bind fun fileSize _ _ => ?_
  refine readField_bind fun maximumProtection _ _ => ?_
  refine readField_bind fun initialProtection _ _ => ?_
  refine failIf_bind fun hranges => failIf_bind fun _ => failIf_bind fun hprotection => ?_
  simp only [addOverflows, Bool.or_eq_false_iff, decide_eq_false_iff_not, not_lt] at hranges
  have := virtualSize.isLt
  refine Post.modify ⟨rfl, rfl, fun segment hmem => ?_⟩
  rcases List.mem_append.mp hmem with hmem | hmem
  · exact .inl hmem
  · obtain rfl := List.mem_singleton.mp hmem
    exact .inr ⟨hranges.1.1.1, by dsimp only; omega, hranges.2, by simpa using hprotection⟩

theorem parseMain_spec {commandSize : Nat} : Post (parseMain view cursor commandSize) file
    (fun _ file' => Extends view file file') Safe := by
  unfold parseMain
  refine failIf_bind fun _ => readField_bind fun entry _ _ => Post.modify ?_
  exact ⟨rfl, rfl, fun _ h => .inl h⟩

theorem parseUuid_spec {commandSize : Nat} (hinside : cursor + commandSize ≤ view.length) :
    Post (parseUuid view cursor commandSize) file (fun _ file' => Extends view file file')
      Safe := by
  unfold parseUuid
  refine failIf_bind fun hsize => Post.bind (Post.get (failIf_bind fun _ => ?_))
  simp only [decide_eq_false_iff_not, not_lt] at hsize
  refine slice_bind (by omega) (Post.modify ?_)
  exact ⟨rfl, rfl, fun _ h => .inl h⟩

theorem parseUnixThread_spec {commandSize : Nat} :
    Post (parseUnixThread view cursor commandSize) file (fun _ file' => Extends view file file')
      Safe := by
  unfold parseUnixThread
  dsimp only
  split
  · refine readField_bind fun flavor _ _ => ?_
    split
    · refine readField_bind fun count _ _ => ?_
      split
      · refine readField_bind fun rip _ _ => Post.modify ?_
        exact ⟨rfl, rfl, fun _ h => .inl h⟩
      · exact Post.pure .refl
    · exact Post.pure .refl
  · exact Post.pure .refl

theorem parseBody_spec {command : BitVec 32} {commandSize : Nat}
    (hinside : cursor + commandSize ≤ view.length) :
    Post (parseBody view command cursor commandSize) file (fun _ file' => Extends view file file')
      Safe := by
  unfold parseBody
  split
  · exact parseSegment_spec
  split
  · exact parseMain_spec
  split
  · exact parseUuid_spec hinside
  split
  · exact parseUnixThread_spec
  · exact Post.pure .refl

/-- The file in the loop : tiled up to the cursor. -/
structure Parsed (view : List Byte) (file : MachOFile) (cursor : Nat) : Prop where
  bytes : file.bytes = view
  tiles : Tiles headerSize64 file.loadCommands cursor
  segments : ∀ segment ∈ file.segments, segment.Valid view.length

theorem parseCommand_spec {commandEnd : Nat} (h : Parsed view file cursor)
    (hcursor : cursor ≤ commandEnd) (hend : commandEnd ≤ view.length) :
    Post (parseCommand view commandEnd cursor) file
      (fun next file' => next ≤ commandEnd ∧ Parsed view file' next) Safe := by
  unfold parseCommand
  refine requireRange_bind fun _ => readField_bind fun command _ _ => ?_
  refine readField_bind fun commandSize _ _ => failIf_bind fun hsize => ?_
  simp only [Bool.or_eq_false_iff, decide_eq_false_iff_not, not_lt] at hsize
  refine Post.bind (Post.modify ?_)
  refine Post.bind (Post.mono (parseBody_spec (by omega)) ?_ fun _ _ he => he)
  rintro _ file' ⟨hbytes, hcommands, hsegments⟩
  refine Post.pure ⟨by omega, hbytes.trans h.bytes, ?_, fun segment hmem => ?_⟩
  · -- whatever the command is, it is one more tile
    rw [hcommands]
    exact h.tiles.append hsize.1 rfl
  · exact (hsegments segment hmem).elim (h.segments segment) id

theorem parseCommands_spec {commandEnd : Nat} (hend : commandEnd ≤ view.length) :
    ∀ {remaining cursor : Nat} {file : MachOFile}, Parsed view file cursor → cursor ≤ commandEnd →
      Post (parseCommands view commandEnd remaining cursor) file
        (fun last file' => Parsed view file' last) Safe
  | 0, _, _, h, _ => Post.pure h
  | remaining + 1, _, _, h, hcursor => by
    unfold parseCommands
    refine Post.bind (Post.mono (parseCommand_spec h hcursor hend) ?_ fun _ _ he => he)
    rintro next file' ⟨hnext, h'⟩
    exact parseCommands_spec hend h' hnext

theorem parseFile_spec : Post (parseFile bytes) {} (fun _ file => Accepted bytes file) Safe := by
  unfold parseFile
  refine Post.bind (Post.mono selectX86Slice_spec ?_ fun _ _ he => he)
  rintro view _ ⟨rfl, hpart⟩
  refine requireRange_bind fun _ => readField_bind fun magic _ _ => failIf_bind fun _ => ?_
  refine readField_bind fun cpuType _ _ => readField_bind fun fileType _ _ => ?_
  refine Post.bind (Post.modify ?_)
  refine failIf_bind fun _ => failIf_bind fun _ => readField_bind fun commandCount _ _ => ?_
  refine readField_bind fun commandBytes _ hbytes => requireRange_bind fun hregion => ?_
  have hsize : commandBytes.toNat = sizeOfCommands view := congrArg BitVec.toNat (hbytes rfl)
  rw [hsize] at hregion ⊢
  refine Post.bind (Post.mono (parseCommands_spec hregion ⟨rfl, rfl, by simp⟩
    (Nat.le_add_right _ _)) ?_ fun _ _ he => he)
  rintro last file ⟨hfile, htiles, hsegments⟩
  refine Post.raiseIf (fun _ => by simp [Safe]) fun hlast => ?_
  obtain rfl : last = headerSize64 + sizeOfCommands view := by simpa using hlast
  subst hfile
  exact ⟨hpart, hregion, htiles, hsegments⟩

/-- No bytes lead outside of them, and what is accepted is well formed. -/
theorem parse_spec (bytes : List Byte) :
    parse bytes ≠ .error .outsideBytes ∧ ∀ file, parse bytes = .ok file → Accepted bytes file := by
  have hpost : Post (parseFile bytes) {} (fun _ file => Accepted bytes file) Safe := parseFile_spec
  unfold Post at hpost
  unfold parse
  rcases hrun : parseFile bytes {} with ⟨e | u, file⟩
  · rw [hrun] at hpost
    exact ⟨fun h => hpost (Except.error.inj h), fun file h => (by cases h)⟩
  · rw [hrun] at hpost
    refine ⟨fun h => (by cases h), fun file' h => ?_⟩
    rw [← Except.ok.inj h]
    exact hpost

end Macho

end Rosa
