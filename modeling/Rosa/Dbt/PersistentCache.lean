import Rosa.Dbt.Ownership

/-!
# The persistent translation cache

`savePersistent` writes the live blocks and the persistent blocks that were not used, and
`loadPersistent` of the next process reads them back and shifts the helper pointers in
their programs. The two have different limits : the writer checks that sizes fit 32 bits,
the reader bounds them further and gives up the whole file on the first record that is out
of bounds. Within the bounds of the reader the file round-trips, whatever cache was loaded
before and whatever code was translated since.
-/

namespace Rosa

open Rosa.Computation Reader

/-! ## The file -/

/-- `persistentMagic`. -/
def persistentMagic : List Byte := [0x52, 0x4F, 0x53, 0x41, 0x43, 0x30, 0x31, 0x00]

/-- `persistentVersion`. -/
def persistentVersion : BitVec 32 := 2

/-- `maximumPersistentFileSize`. -/
def maximumPersistentFileSize : Nat := 512 * 1024 * 1024

/-- `maximumPersistentRecords`. -/
def maximumPersistentRecords : Nat := 2 ^ 20

/-- `maximumPersistentSourceSize`. -/
def maximumPersistentSourceSize : Nat := 4096

/-- `maximumPersistentProgramSize`. -/
def maximumPersistentProgramSize : Nat := 2 ^ 20

/-- `maximumPersistentRelocations`. -/
def maximumPersistentRelocations : Nat := 2 ^ 16

/-- A record of the file. -/
abbrev Record := Sigma fun _ : BitVec 64 => PersistentBlock

/-- The flags of a record. -/
def recordFlags (block : PersistentBlock) : BitVec 32 :=
  (if block.hasInternalSelfEdge then 1 else 0) |||
    (if block.callReturnAddress.isSome then 2 else 0)

/-- `appendRecord`. -/
def encodeRecord (record : Record) : List Byte :=
  let block := record.2
  littleEndian 8 record.1 ++ littleEndian 8 block.maximumInstructions ++
    littleEndian 4 (BitVec.ofNat 32 block.sourceBytes.length) ++
    littleEndian 4 (BitVec.ofNat 32 block.program.bytes.length) ++
    littleEndian 4 (BitVec.ofNat 32 block.program.pointerRelocations.length) ++
    littleEndian 4 (recordFlags block) ++
    littleEndian 8 (block.callReturnAddress.getD 0) ++
    littleEndian 8 block.lastInstructionAddress ++
    block.sourceBytes ++ block.program.bytes ++
    block.program.pointerRelocations.flatMap (littleEndian 4)

/-- The file with these records, of a build and a process with this helper anchor. -/
def encodeFile (fingerprint anchor : BitVec 64) (records : List Record) : List Byte :=
  persistentMagic ++ littleEndian 4 persistentVersion ++ littleEndian 8 fingerprint ++
    littleEndian 8 anchor ++ littleEndian 4 (BitVec.ofNat 32 records.length) ++
    records.flatMap encodeRecord

/-- `readU32`. -/
def readU32 : Reader String (BitVec 32) :=
  takeWord "persistent translation cache is truncated" 32 4

/-- `readU64`. -/
def readU64 : Reader String (BitVec 64) :=
  takeWord "persistent translation cache is truncated" 64 8

/-- `readBytes`. -/
def readBytes (size : Nat) : Reader String (List Byte) :=
  takeBytes "persistent translation cache is truncated" size

/-- Throw what a relocation throws. -/
def liftRelocation (x : Except String Program) : Reader String Program :=
  match x with
  | .ok program => pure program
  | .error message => raise message

/-- The header of a record is out of bounds. -/
def invalidRecord (address maximumInstructions : BitVec 64)
    (sourceSize programSize relocationCount flags : BitVec 32)
    (lastInstructionAddress : BitVec 64) : Bool :=
  maximumInstructions == 0 || decide (2 ^ 64 - 1 < maximumInstructions.toNat) ||
    sourceSize == 0 || decide (maximumPersistentSourceSize < sourceSize.toNat) ||
    programSize == 0 || decide (maximumPersistentProgramSize < programSize.toNat) ||
    decide (maximumPersistentRelocations < relocationCount.toNat) || (flags &&& ~~~3#32) != 0 ||
    decide (lastInstructionAddress < address) ||
    decide (sourceSize.toNat ≤ (lastInstructionAddress - address).toNat)

/-- One turn of the loop of `loadPersistent`, up to the table. -/
def loadRecord (anchor oldAnchor : BitVec 64) : Reader String Record := do
  let address ← readU64
  let maximumInstructions ← readU64
  let sourceSize ← readU32
  let programSize ← readU32
  let relocationCount ← readU32
  let flags ← readU32
  let callReturnAddress ← readU64
  let lastInstructionAddress ← readU64
  raiseIf
    (invalidRecord address maximumInstructions sourceSize programSize relocationCount flags
      lastInstructionAddress)
    "persistent translation cache record is invalid"
  let sourceBytes ← readBytes sourceSize.toNat
  let bytes ← readBytes programSize.toNat
  let pointerRelocations ← takeMany readU32 relocationCount.toNat
  let program ← liftRelocation (relocateProgram anchor oldAnchor ⟨bytes, pointerRelocations⟩)
  pure ⟨address,
    { sourceBytes
      program
      maximumInstructions
      hasInternalSelfEdge := (flags &&& 1#32) != 0
      callReturnAddress := if (flags &&& 2#32) != 0 then some callReturnAddress else none
      lastInstructionAddress }⟩

/-- The loop of `loadPersistent`. -/
def loadRecords (anchor oldAnchor : BitVec 64) :
    Nat → Table PersistentBlock → Reader String (Table PersistentBlock)
  | 0, table => pure table
  | count + 1, table => do
    let record ← loadRecord anchor oldAnchor
    raiseIf (table.lookup record.1).isSome "persistent translation cache repeats a guest address"
    loadRecords anchor oldAnchor count (table.insert record.1 record.2)

/-- `PersistentReader::finished`, or throw. -/
def requireFinished : Reader String Unit := fun bytes =>
  if bytes = [] then (.ok (), bytes) else (.error "persistent translation cache has trailing data", bytes)

/-- The part of `loadPersistent` after the header. -/
def loadTable (anchor oldAnchor : BitVec 64) (recordCount : Nat) :
    Reader String (Table PersistentBlock) := do
  raiseIf (decide (maximumPersistentRecords < recordCount))
    "persistent translation cache has too many records"
  let table ← loadRecords anchor oldAnchor recordCount ∅
  requireFinished
  pure table

/-- The body of `loadPersistent`. A file of another format or build counts as empty. -/
def loadFile (fingerprint anchor : BitVec 64) : Reader String (Table PersistentBlock) := do
  let magic ← readBytes persistentMagic.length
  if magic != persistentMagic then pure ∅
  else
    let version ← readU32
    if version != persistentVersion then pure ∅
    else
      let build ← readU64
      if build != fingerprint then pure ∅
      else
        let oldAnchor ← readU64
        let recordCount ← readU32
        loadTable anchor oldAnchor recordCount.toNat

/-- `loadPersistent` of the file at the path, if there is one. -/
def loadPersistent (fingerprint anchor : BitVec 64) (file : Option (List Byte)) :
    Except String (Table PersistentBlock) :=
  match file with
  | none => .ok ∅
  | some bytes =>
    if maximumPersistentFileSize < bytes.length then
      .error "persistent translation cache has an invalid file size"
    else (loadFile fingerprint anchor bytes).1

namespace BlockCache

/-- The constructor : a file that cannot be loaded counts as empty. -/
def create (fingerprint anchor : BitVec 64) (persistentPath : Bool) (file : Option (List Byte)) :
    BlockCache where
  persistentPath
  persistentBlocks :=
    if persistentPath then
      match loadPersistent fingerprint anchor file with
      | .ok table => table
      | .error _ => ∅
    else ∅

/-- The order in which a hash table is walked. -/
structure HashOrder where
  walk : Table PersistentBlock → List Record
  perm : ∀ table, (walk table).Perm table.entries

/-- What is saved of the block at an address. -/
def recordAt (c : BlockCache) (address : BitVec 64) (id : BlockId) : Option PersistentBlock :=
  match c.heap id, c.maximumInstructions address with
  | some block, some maximum => some (block.record maximum)
  | _, _ => none

/-- The records of live blocks; a block without its instruction limit stops the writer. -/
def liveRecords (c : BlockCache) :
    List (Sigma fun _ : BitVec 64 => BlockId) → Option (List Record)
  | [] => some []
  | ⟨address, id⟩ :: entries =>
    match c.recordAt address id, liveRecords c entries with
    | some block, some records => some (⟨address, block⟩ :: records)
    | _, _ => none

/-- The live blocks, in order of address. -/
def orderedBlocks (c : BlockCache) : List (Sigma fun _ : BitVec 64 => BlockId) :=
  c.blocks.entries.insertionSort fun a b => a.1 ≤ b.1

/-- The persistent blocks that were not used. -/
def unusedRecords (order : HashOrder) (c : BlockCache) : List Record :=
  (order.walk c.persistentBlocks).filter fun record => (c.blocks.lookup record.1).isNone

/-- The sizes of a record fit 32 bits. -/
def fitsWriter (record : Record) : Bool :=
  record.2.sourceBytes.length ≤ 2 ^ 32 - 1 && record.2.program.bytes.length ≤ 2 ^ 32 - 1 &&
    record.2.program.pointerRelocations.length ≤ 2 ^ 32 - 1

/-- `savePersistent` : the file, if one is written. -/
def savePersistent (fingerprint anchor : BitVec 64) (order : HashOrder) (c : BlockCache) :
    Option (List Byte) :=
  if !c.persistentPath || !c.persistentDirty then none
  else if (2 ^ 32 - 1 + 2 ^ 64 - (c.unusedRecords order).length) % 2 ^ 64 < c.blocks.entries.length
    then none
  else
    match c.liveRecords c.orderedBlocks with
    | none => none
    | some live =>
      if (live ++ c.unusedRecords order).all fitsWriter then
        some (encodeFile fingerprint anchor (live ++ c.unusedRecords order))
      else none

/-- The arguments of a call of `getOrTranslate`. -/
structure Request where
  address : BitVec 64
  code : List Byte
  maximumInstructions : BitVec 64
  executableVersion : BitVec 64

/-- The cache after a sequence of calls of `getOrTranslate`, returned or thrown. -/
def afterAll {I : Type} (tr : Translator I) (c : BlockCache) (requests : List Request) :
    BlockCache :=
  requests.foldl
    (fun c r => (getOrTranslate tr r.address r.code r.maximumInstructions r.executableVersion c).2) c

/-- What the file keeps for an address : its live block, or the persistent block that was
not used. -/
def saved (c : BlockCache) (address : BitVec 64) : Option PersistentBlock :=
  match c.blocks.lookup address with
  | some id => c.recordAt address id
  | none => c.persistentBlocks.lookup address

end BlockCache

end Rosa
