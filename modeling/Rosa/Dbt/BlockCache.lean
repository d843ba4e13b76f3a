import Rosa.Logic.Codec
import Mathlib.Data.List.AList

/-!
# The block cache

`dbt/BlockCache.cpp` and the parts of `dbt/Translator.cpp`, `x86/Decoder.cpp` and
`arm64/Assembler.cpp` that decide what a translated block is. The decoder of a single
instruction and the code generator are parameters, with what the rest relies on as
fields; the loop over a basic block and the words of a program with their pointer
relocations are modelled.

A pointer to a block is a number, and `heap` says which blocks are alive. Memory that the
host refuses, and with it the publishing of executable code, is left out.
-/

namespace Rosa

open Rosa.Computation

/-! ## Programs -/

/-- `arm64::Program`, without its listing. -/
structure Program where
  bytes : List Byte
  pointerRelocations : List (BitVec 32)
  deriving DecidableEq, Repr

/-- What the code generator emits : a word, or `movImmediate` of a relocatable pointer
into x16. -/
inductive Emission
  | word (value : BitVec 32)
  | pointer (value : BitVec 64)
  deriving DecidableEq, Repr

/-- The word that moves a halfword of a pointer : `movz` for the first, `movk` for the
others. -/
def pointerWord (value : BitVec 64) (halfword : Nat) : BitVec 32 :=
  (if halfword = 0 then 0xD2800000#32 else 0xF2800000#32) ||| (BitVec.ofNat 32 halfword <<< 21) |||
    (((value >>> (16 * halfword)) &&& 0xFFFF#64).setWidth 32 <<< 5) ||| 16#32

/-- The four words of `movImmediate`. -/
def pointerWords (value : BitVec 64) : List (BitVec 32) := (List.range 4).map (pointerWord value)

/-- The words and relocations of `Assembler`, and `Assembler::finish`. -/
def assemble : List Emission → List (BitVec 32) → List (BitVec 32) → Except String Program
  | [], words, relocations => .ok ⟨words.flatMap (littleEndian 4), relocations⟩
  | .word value :: emissions, words, relocations =>
    assemble emissions (words ++ [value]) relocations
  | .pointer value :: emissions, words, relocations =>
    if (2 ^ 32 - 1) / 4 < words.length then .error "ARM64 pointer relocation offset overflows"
    else
      assemble emissions (words ++ pointerWords value)
        (relocations ++ [BitVec.ofNat 32 (words.length * 4)])

/-! ## Translation -/

/-- `x86::DecodedInstruction` : where it is, its bytes, whether it ends a block, and what it
does. -/
structure DecodedInstruction (I : Type) where
  address : BitVec 64
  bytes : List Byte
  terminates : Bool
  operation : I

/-- The decoder of one instruction and the code generator. -/
structure Translator (I : Type) where
  decodeInstruction : List Byte → BitVec 64 → Except String (DecodedInstruction I)
  compile : List (DecodedInstruction I) → Except String (List Emission)
  hasInternalSelfEdge : List (DecodedInstruction I) → Bool
  callReturnAddress : List (DecodedInstruction I) → Option (BitVec 64)
  decode_address : ∀ {code address i}, decodeInstruction code address = .ok i → i.address = address
  decode_bytes : ∀ {code address i}, decodeInstruction code address = .ok i →
    i.bytes ≠ [] ∧ i.bytes <+: code
  compile_ne_nil : ∀ {decoded emissions}, compile decoded = .ok emissions → emissions ≠ []

/-- `TranslatedBlock`. -/
structure TranslatedBlock where
  sourceBytes : List Byte
  lastInstructionAddress : BitVec 64
  maximumInstructions : BitVec 64
  program : Program
  callReturnAddress : Option (BitVec 64)
  hasInternalSelfEdge : Bool
  executionCount : Nat := 0

namespace Translator

variable {I : Type} (tr : Translator I)

/-- The loop of `decodeBlock`; each turn takes at least one byte. -/
def decodeFrom (code : List Byte) (start maximumInstructions : BitVec 64) :
    Nat → Nat → List (DecodedInstruction I) → Except String (List (DecodedInstruction I))
  | 0, _, _ => .error "basic block ended without a supported terminator"
  | fuel + 1, cursor, result =>
    if cursor < code.length then
      if 2 ^ 64 - 1 - start.toNat < cursor then .error "guest RIP overflows"
      else
        match tr.decodeInstruction (code.drop cursor) (start + BitVec.ofNat 64 cursor) with
        | .error message => .error message
        | .ok instruction =>
          if instruction.terminates || result.length + 1 == maximumInstructions.toNat then
            .ok (result ++ [instruction])
          else
            decodeFrom code start maximumInstructions fuel (cursor + instruction.bytes.length)
              (result ++ [instruction])
    else .error "basic block ended without a supported terminator"

/-- `decodeBlock`. -/
def decodeBlock (code : List Byte) (start maximumInstructions : BitVec 64) :
    Except String (List (DecodedInstruction I)) :=
  if maximumInstructions = 0 then .error "x86 decoder instruction limit must be nonzero"
  else tr.decodeFrom code start maximumInstructions (code.length + 1) 0 []

/-- `Translator::translate`, and the constructor of `TranslatedBlock`. -/
def translate (code : List Byte) (start maximumInstructions : BitVec 64) :
    Except String TranslatedBlock := do
  let decoded ← tr.decodeBlock code start maximumInstructions
  let emissions ← tr.compile decoded
  let program ← assemble emissions [] []
  match decoded.getLast? with
  | none => .error "translated block has no decoded instructions"
  | some last =>
    .ok
      { sourceBytes := decoded.flatMap DecodedInstruction.bytes
        lastInstructionAddress := last.address
        maximumInstructions
        program
        callReturnAddress := tr.callReturnAddress decoded
        hasInternalSelfEdge := tr.hasInternalSelfEdge decoded }

end Translator

/-! ## The cache -/

/-- A table by guest address. -/
abbrev Table (α : Type) := AList fun _ : BitVec 64 => α

abbrev BlockId := Nat

/-- `PersistentBlock`, without its executable code. -/
structure PersistentBlock where
  sourceBytes : List Byte
  program : Program
  maximumInstructions : BitVec 64
  hasInternalSelfEdge : Bool
  callReturnAddress : Option (BitVec 64)
  lastInstructionAddress : BitVec 64
  deriving DecidableEq, Repr

/-- `BlockCache::LookupEntry`. -/
structure LookupEntry where
  block : BlockId
  executableVersion : BitVec 64
  deriving DecidableEq, Repr

/-- `BlockCache`; `persistentPath` says whether there is one. -/
structure BlockCache where
  heap : BlockId → Option TranslatedBlock := fun _ => none
  nextId : BlockId := 0
  blocks : Table BlockId := ∅
  lookup : BitVec 64 → Option LookupEntry := fun _ => none
  maximumInstructions : BitVec 64 → Option (BitVec 64) := fun _ => none
  persistentPath : Bool := false
  persistentBlocks : Table PersistentBlock := ∅
  persistentHitCount : Nat := 0
  persistentDirty : Bool := false

/-- What the cache throws; `dangling` stands for the use of a block that was freed. -/
inductive CacheError
  | thrown (message : String)
  | dangling
  deriving DecidableEq, Repr

namespace BlockCache

variable {I : Type}

/-- `sourceMatches`. -/
def sourceMatches (sourceBytes code : List Byte) : Bool :=
  sourceBytes.length ≤ code.length && sourceBytes == code.take sourceBytes.length

/-- `findCurrent`. -/
def findCurrent (c : BlockCache) (address executableVersion : BitVec 64) : Option BlockId :=
  (c.lookup address).bind fun existing =>
    if existing.executableVersion != executableVersion then none else some existing.block

/-- Throw what a translation throws. -/
def liftTranslation {α : Type} (x : Except String α) : Computation BlockCache CacheError α :=
  match x with
  | .ok a => pure a
  | .error message => raise (.thrown message)

/-- The cache after a block was replaced by a new one. -/
def replaced (c : BlockCache) (address : BitVec 64) (old : BlockId) (block : TranslatedBlock)
    (maximumInstructions executableVersion : BitVec 64) : BlockCache :=
  { c with
    heap := Function.update (Function.update c.heap old none) c.nextId (some block)
    nextId := c.nextId + 1
    blocks := c.blocks.insert address c.nextId
    lookup := Function.update c.lookup address (some ⟨c.nextId, executableVersion⟩)
    maximumInstructions := Function.update c.maximumInstructions address (some maximumInstructions) }

/-- The cache after a block was added. -/
def added (c : BlockCache) (address : BitVec 64) (block : TranslatedBlock)
    (maximumInstructions executableVersion : BitVec 64) : BlockCache :=
  { c with
    heap := Function.update c.heap c.nextId (some block)
    nextId := c.nextId + 1
    blocks := c.blocks.insert address c.nextId
    lookup := Function.update c.lookup address (some ⟨c.nextId, executableVersion⟩)
    maximumInstructions := Function.update c.maximumInstructions address (some maximumInstructions) }

/-- `Translator::loadCached`. -/
def loadCached (persistent : PersistentBlock) (maximumInstructions : BitVec 64) :
    TranslatedBlock where
  sourceBytes := persistent.sourceBytes
  lastInstructionAddress := persistent.lastInstructionAddress
  maximumInstructions
  program := persistent.program
  callReturnAddress := persistent.callReturnAddress
  hasInternalSelfEdge := persistent.hasInternalSelfEdge

/-- The persistent block that `getOrTranslate` takes over. -/
def persistentMatch (c : BlockCache) (address : BitVec 64) (code : List Byte)
    (maximumInstructions : BitVec 64) : Option PersistentBlock :=
  (c.persistentBlocks.lookup address).filter fun cached =>
    cached.maximumInstructions == maximumInstructions && sourceMatches cached.sourceBytes code

/-- A translation made the cache file out of date, if there is one. -/
def markDirty : Computation BlockCache CacheError Unit :=
  modify fun c => { c with persistentDirty := c.persistentPath }

/-- `getOrTranslate`. -/
def getOrTranslate (tr : Translator I) (address : BitVec 64) (code : List Byte)
    (maximumInstructions executableVersion : BitVec 64) :
    Computation BlockCache CacheError BlockId := do
  let c ← get
  match c.lookup address with
  | some existing =>
    match c.heap existing.block with
    | none => raise .dangling
    | some block =>
      if sourceMatches block.sourceBytes code then
        modify fun c =>
          { c with
            lookup := Function.update c.lookup address
              (some { existing with executableVersion }) }
        pure existing.block
      else
        -- the replacement is built before the old block is retired
        let replacement ← liftTranslation (tr.translate code address maximumInstructions)
        markDirty
        raiseIf (c.blocks.lookup address != some existing.block)
          (.thrown "translated block ownership/index disagree")
        modify fun c =>
          c.replaced address existing.block replacement maximumInstructions executableVersion
        pure c.nextId
  | none =>
    match c.persistentMatch address code maximumInstructions with
    | some persistent =>
      modify fun c => { c with persistentBlocks := c.persistentBlocks.erase address }
      modify fun c => { c with persistentHitCount := c.persistentHitCount + 1 }
      raiseIf (c.blocks.lookup address).isSome
        (.thrown "translated block ownership/index disagree")
      modify fun c =>
        c.added address (loadCached persistent maximumInstructions) maximumInstructions
          executableVersion
      pure c.nextId
    | none =>
      let block ← liftTranslation (tr.translate code address maximumInstructions)
      markDirty
      raiseIf (c.blocks.lookup address).isSome
        (.thrown "translated block ownership/index disagree")
      modify fun c => c.added address block maximumInstructions executableVersion
      pure c.nextId

/-- `resetExecutionCounts`. -/
def resetExecutionCounts (c : BlockCache) : BlockCache :=
  { c with heap := fun id => (c.heap id).map fun block => { block with executionCount := 0 } }

end BlockCache

end Rosa
