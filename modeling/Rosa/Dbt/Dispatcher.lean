import Rosa.Dbt.CacheTransparency
import Rosa.Dbt.CallReturn
import Rosa.Dbt.LoopAnalysis
import Rosa.IR.Optimization
import Rosa.Logic.RingBuffer

/-!
# The dispatcher

`Dispatcher::run` of `dbt/Dispatcher.cpp`, with what it uses of `dbt/TranslatedBlock.cpp` : the two
tiers of a block, and one execution or a batch of executions of it.

The machine code of a block, the code of its optimized loop and the system calls are parameters
(`Engine`). Whatever they do to memory is a list of calls of the address space, so memory is at
every moment the space that the calls made so far lead to. Times are left out.
-/

namespace Rosa

open Rosa.Computation Rosa.AddressSpace Rosa.BlockCache

/-! ## Parameters -/

/-- `BlockExit`. -/
inductive BlockExit
  | continue | call | return | syscall | memoryFault | executionFault
  deriving DecidableEq, Repr

/-- The exits with their values. -/
def BlockExit.all : List BlockExit :=
  [.continue, .call, .return, .syscall, .memoryFault, .executionFault]

/-- What a block is entered with, of `GuestExecutionContext`. -/
structure EntryContext where
  remainingBlockExecutions : Nat := 1
  directMemoryEnabled : Bool := false

/-- What the machine code of a block leaves : the value it returns, the fields of
`GuestExecutionContext` that are read afterwards, the guest, and what was done to memory. -/
structure RawExecution (E : Type) where
  rawExit : BitVec 64
  fault : Option E := none
  faultRip : GuestAddress
  remainingBlockExecutions : BitVec 64
  guest : GuestState
  calls : List Call := []

/-- What `OptimizedLoop::execute` leaves; without a count it has declined. -/
structure LoopExecution where
  executionCount : Option (BitVec 64)
  guest : GuestState
  calls : List Call := []

/-- `SyscallOutcome`. -/
structure SyscallOutcome where
  exited : Bool := false
  exitStatus : Int := 0

/-- What `SyscallDispatcher::dispatch` leaves. -/
structure SyscallExecution (E : Type) where
  outcome : Except (DispatchError E) SyscallOutcome
  guest : GuestState
  calls : List Call := []

/-- `SharedCacheImage`, as far as the dispatcher looks at it. -/
structure SharedCacheImage where
  index : Nat
  loadAddress : GuestAddress
  textSize : Nat
  deriving DecidableEq, Repr

/-- What a dispatcher is made with. -/
structure Engine (I E : Type) where
  translator : Translator I
  /-- `x86::lowerToIr`. -/
  lowerToIr : List (DecodedInstruction I) → Except String Block
  llvmBackendAvailable : Bool
  /-- The error of the compiler of optimized loops, if it throws. -/
  compileError : Block → Option String
  entry : TranslatedBlock → EntryContext → GuestState → AddressSpace → RawExecution E
  loop : Block → Nat → GuestState → AddressSpace → LoopExecution
  syscall : GuestAddress → GuestState → AddressSpace → SyscallExecution E
  sharedCache : Option (List SharedCacheImage)
  maximumInstructionsPerBlock : BitVec 64

/-- The exceptions that leave `run`. -/
inductive RunError (E : Type)
  | dispatch (error : DispatchError E)
  | cache (error : CacheError)

/-- An exception with a message. -/
def RunError.thrown {E : Type} (message : String) : RunError E := .dispatch (.thrown message)

/-! ## Tiers -/

/-- What a `TranslatedBlock` has for its optimizing tier. -/
structure Tier where
  ir : Block
  optimizationCandidate : Bool := false
  optimizationWarmupExecutions : Nat := 1024
  usesOptimizedLoop : Bool := false

/-- `optimizedMemoryLoopWarmupExecutions`. -/
def optimizedMemoryLoopWarmupExecutions : Nat := 100000000

/-- `optimizedLoopMinimumRemainingExecutions`. -/
def optimizedLoopMinimumRemainingExecutions : Nat := 10000000

/-- `canCompileOptimizedLoop`. -/
def canCompileOptimizedLoop (block : Block) : Bool := (analyzeLoop block).isSome

/-- `optimizedLoopUsesMemory`. -/
def optimizedLoopUsesMemory (block : Block) : Bool :=
  (analyzeLoop block).any fun analysis => analysis.memory.isSome

section

variable {I E : Type} (engine : Engine I E)

/-- The IR of the bytes of a block. -/
def Engine.rebuildIr (sourceBytes : List Byte) (start maximumInstructions : BitVec 64) :
    Except String Block := do
  let decoded ← engine.translator.decodeBlock sourceBytes start maximumInstructions
  let ir ← engine.lowerToIr decoded
  pure (optimizeBlock ir)

/-- The tiers of a block that was translated. -/
def Tier.translated (ir : Block) : Tier where
  ir
  optimizationCandidate := engine.llvmBackendAvailable && canCompileOptimizedLoop ir
  optimizationWarmupExecutions :=
    if engine.llvmBackendAvailable && canCompileOptimizedLoop ir && optimizedLoopUsesMemory ir then
      optimizedMemoryLoopWarmupExecutions
    else 1024

/-- The tiers of a block from the persistent cache; its IR is not kept there. -/
def Tier.persistent (start : GuestAddress) (hasInternalSelfEdge : Bool) : Tier where
  ir := ⟨start, [], 0⟩
  optimizationCandidate := engine.llvmBackendAvailable && hasInternalSelfEdge

/-- The tiers of a new block; without IR the translation would not have succeeded. -/
def Tier.ofBlock (block : TranslatedBlock) (start : GuestAddress) (isPersistent : Bool) : Tier :=
  if isPersistent then .persistent engine start block.hasInternalSelfEdge
  else
    match engine.rebuildIr block.sourceBytes start block.maximumInstructions with
    | .ok ir => .translated engine ir
    | .error _ => { ir := ⟨start, [], 0⟩ }

/-- The first part of `promoteOptimizedLoopIfHot` : IR that is not there is made again. -/
def ensureIr (block : TranslatedBlock) : Computation Tier String Unit := do
  let tier ← get
  if tier.ir.operations = [] then
    match engine.rebuildIr block.sourceBytes tier.ir.start block.maximumInstructions with
    | .error message => raise message
    | .ok ir => modify fun tier => { tier with ir }
  else pure ()

/-- A loop that accesses memory has to be hotter. -/
def Tier.raiseWarmup (tier : Tier) : Tier :=
  if optimizedLoopUsesMemory tier.ir then
    { tier with optimizationWarmupExecutions := optimizedMemoryLoopWarmupExecutions }
  else tier

/-- The second part, with the IR in place. -/
def compilePromoted (executionCount : Nat) : Computation Tier String Unit := do
  let tier ← get
  if canCompileOptimizedLoop tier.ir then
    modify Tier.raiseWarmup
    if optimizedLoopUsesMemory tier.ir ∧ executionCount < optimizedMemoryLoopWarmupExecutions then
      pure ()
    else
      match engine.compileError tier.ir with
      | some message => raise message
      | none =>
        modify fun tier =>
          { tier with
            usesOptimizedLoop := engine.llvmBackendAvailable
            optimizationCandidate := engine.llvmBackendAvailable }
  else modify fun tier => { tier with optimizationCandidate := false }

/-- `promoteOptimizedLoopIfHot`. -/
def promoteOptimizedLoopIfHot (block : TranslatedBlock) (remainingBudget : Nat) :
    Computation Tier String Unit := do
  let tier ← get
  if tier.optimizationCandidate ∧ tier.usesOptimizedLoop = false ∧
      tier.optimizationWarmupExecutions ≤ block.executionCount ∧
      optimizedLoopMinimumRemainingExecutions ≤ remainingBudget then
    ensureIr engine block
    compilePromoted engine block.executionCount
  else pure ()

/-- `executionBatchLimit`. -/
def Tier.executionBatchLimit (tier : Tier) (executionCount requested : Nat) : Nat :=
  if tier.optimizationCandidate = false ∨ tier.usesOptimizedLoop = true ∨
      tier.optimizationWarmupExecutions ≤ executionCount then requested
  else min requested (tier.optimizationWarmupExecutions - executionCount)

/-- The limit of a batch, after the block was promoted if it is hot. -/
def batchLimit (block : TranslatedBlock) (remainingBlocks : Nat) : Computation Tier String Nat := do
  let tier ← get
  if tier.optimizationCandidate then
    promoteOptimizedLoopIfHot engine block remainingBlocks
    let tier ← get
    pure (tier.executionBatchLimit block.executionCount remainingBlocks)
  else pure remainingBlocks

/-! ## Execution of a block -/

/-- What the execution of a block leaves. -/
structure BlockExecution (E : Type) where
  result : Except (DispatchError E) (BlockExit × Nat)
  guest : GuestState
  calls : List Call := []

/-- `checkedExit`, for a batch of `executionCount` executions. -/
def checkedExit (raw : RawExecution E) (executionCount : Nat) : BlockExecution E :=
  match raw.fault with
  | some e => ⟨.error (.fault e), { raw.guest with rip := raw.faultRip }, raw.calls⟩
  | none =>
    match BlockExit.all[raw.rawExit.toNat]? with
    | none =>
      ⟨.error (.thrown "generated block returned an invalid exit reason"), raw.guest, raw.calls⟩
    | some exit =>
      if exit = .memoryFault ∨ exit = .executionFault then
        ⟨.error (.thrown "generated block reported a guest fault without detail"),
          { raw.guest with rip := raw.faultRip }, raw.calls⟩
      else ⟨.ok (exit, executionCount), raw.guest, raw.calls⟩

/-- What was executed after other calls. -/
def BlockExecution.after (earlier : List Call) (execution : BlockExecution E) : BlockExecution E :=
  { execution with calls := earlier ++ execution.calls }

/-- Run the optimized loop of a block, if it has one, and else the rest; the rest also runs where
the loop declines. -/
def tryOptimizedLoop (tier : Tier) (maximumExecutions : Nat) (g : GuestState) (s : AddressSpace)
    (rest : GuestState → AddressSpace → BlockExecution E) : BlockExecution E :=
  if tier.usesOptimizedLoop then
    let loop := engine.loop tier.ir maximumExecutions g s
    match loop.executionCount with
    | some executionCount =>
      if executionCount.toNat = 0 ∨ maximumExecutions < executionCount.toNat then
        ⟨.error (.thrown "optimized loop executed an invalid number of blocks"), loop.guest,
          loop.calls⟩
      else ⟨.ok (.continue, executionCount.toNat), loop.guest, loop.calls⟩
    | none => (rest loop.guest (s.afterAll loop.calls)).after loop.calls
  else rest g s

/-- `execute`. -/
def execute (tier : Tier) (block : TranslatedBlock) (g : GuestState) (s : AddressSpace) :
    BlockExecution E :=
  tryOptimizedLoop engine tier 1 g s fun g s => checkedExit (engine.entry block {} g s) 1

/-- `executeRepeated`. -/
def executeRepeated (tier : Tier) (block : TranslatedBlock) (maximumExecutions : Nat)
    (g : GuestState) (s : AddressSpace) : BlockExecution E :=
  if maximumExecutions = 0 then
    ⟨.error (.thrown "repeated block execution requires a nonzero limit"), g, []⟩
  else
    tryOptimizedLoop engine tier maximumExecutions g s fun g s =>
      if block.hasInternalSelfEdge then
        let raw := engine.entry block
          { remainingBlockExecutions := maximumExecutions, directMemoryEnabled := true } g s
        checkedExit raw (BitVec.ofNat 64 maximumExecutions - raw.remainingBlockExecutions).toNat
      else execute engine tier block g s

end

/-! ## State -/

/-- `DispatchCacheEntry`, with a block. -/
structure DispatchCacheEntry where
  address : BitVec 64
  executableVersion : BitVec 64
  block : BlockId

/-- `CacheImageExecution`. -/
structure CacheImageExecution where
  image : SharedCacheImage
  firstRip : GuestAddress
  executedBlock : Nat
  deriving DecidableEq, Repr

/-- `Dispatcher`. The counter of executed blocks is also the one of the result of the current
run : the two are set to zero and increased together. -/
structure Dispatcher where
  cache : BlockCache
  tiers : BlockId → Tier := fun _ => { ir := ⟨0, [], 0⟩ }
  dispatchCache : BitVec 8 → Option DispatchCacheEntry := fun _ => none
  executedBlocks : Nat := 0
  recentBlocks : RingBuffer GuestAddress 16 := { slots := fun _ => 0 }
  executedCacheImageIndexes : List Nat := []
  cacheImageExecutions : List CacheImageExecution := []

/-- A dispatcher with the guest and the calls of its address space so far. -/
structure Process where
  dispatcher : Dispatcher
  guest : GuestState
  history : List Call := []

/-- The address space. -/
def Process.space (p : Process) : AddressSpace := afterAll {} p.history

/-- What a turn executed : a block, how many blocks the run had executed before, and how often. -/
structure Executed where
  address : GuestAddress
  block : BlockId
  before : Nat
  count : Nat
  deriving DecidableEq, Repr

/-- `DispatchResult`. -/
structure DispatchResult where
  executedBlocks : Nat
  translatedBlocks : Nat
  exited : Bool := false
  exitStatus : Int := 0

/-- How a turn ends. -/
inductive TurnEnd (E : Type)
  | goesOn
  | returned
  | exited (exitStatus : Int)
  | failed (error : RunError E)

/-- How a run ends; a turn that executes nothing can repeat for ever. -/
inductive RunEnd (E : Type)
  | unfinished
  | returned (result : DispatchResult)
  | failed (error : RunError E)

namespace Process

/-- Some calls of the address space. -/
def does (p : Process) (calls : List Call) : Process := { p with history := p.history ++ calls }

/-- Change the dispatcher. -/
def update (p : Process) (f : Dispatcher → Dispatcher) : Process :=
  { p with dispatcher := f p.dispatcher }

end Process

namespace Dispatcher

variable {I E : Type} (engine : Engine I E)

/-! ## Selection of a block -/

/-- The slot of an address in the dispatch cache. -/
def slotOf (address : BitVec 64) : BitVec 8 := (address >>> 1).setWidth 8

/-- The block that is found without a translation. -/
def findBlock (d : Dispatcher) (address executableVersion : BitVec 64) : Option BlockId :=
  match d.dispatchCache (slotOf address) with
  | some entry =>
    if entry.address = address ∧ entry.executableVersion = executableVersion then some entry.block
    else d.cache.findCurrent address executableVersion
  | none => d.cache.findCurrent address executableVersion

/-- Put a block into the dispatch cache. -/
def remember (d : Dispatcher) (address executableVersion : BitVec 64) (id : BlockId) : Dispatcher :=
  { d with
    dispatchCache :=
      Function.update d.dispatchCache (slotOf address) (some ⟨address, executableVersion, id⟩) }

/-- The tiers after a call of `getOrTranslate` that returned `id` : those of a new block. -/
def newTiers (d : Dispatcher) (address : BitVec 64) (cache : BlockCache) (id : BlockId) :
    BlockId → Tier :=
  match cache.heap id with
  | some block =>
    if id = d.cache.nextId then
      Function.update d.tiers id (.ofBlock engine block address
        (cache.persistentHitCount != d.cache.persistentHitCount))
    else d.tiers
  | none => d.tiers

/-- The block to be executed. The host may refuse what a translation needs. -/
def selectBlock (refusal : Option String) (p : Process) : Except (RunError E) BlockId × Process :=
  let address := p.guest.rip
  let version := p.space.executableVersion
  match p.dispatcher.findBlock address version with
  | some id => (.ok id, p.update fun d => d.remember address version id)
  | none =>
    let p' := p.does [.executableBytes address]
    match (executableBytes address.toNat p.space).1 with
    | .error e => (.error (.dispatch (.access e)), p')
    | .ok code =>
      let call : CacheCall :=
        ⟨address, code, engine.maximumInstructionsPerBlock, version, refusal⟩
      match call.run engine.translator p.dispatcher.cache with
      | (.error e, cache) => (.error (.cache e), p'.update fun d => { d with cache })
      | (.ok id, cache) =>
        (.ok id, p'.update fun d =>
          { d with cache, tiers := d.newTiers engine address cache id }.remember address version id)

/-- Change the tiers of a block. -/
def setTier (d : Dispatcher) (id : BlockId) (tier : Tier) : Dispatcher :=
  { d with tiers := Function.update d.tiers id tier }

/-! ## Accounting -/

/-- `imageForAddress` : the last image that does not begin after the address, if the address is in
it. -/
def imageForAddress (images : List SharedCacheImage) (address : GuestAddress) :
    Option SharedCacheImage :=
  ((images.takeWhile fun image => image.loadAddress ≤ address).getLast?).filter fun image =>
    (address - image.loadAddress).toNat < image.textSize

/-- The image of an address, if the guest has a shared cache. -/
def imageOf (address : GuestAddress) : Option SharedCacheImage :=
  engine.sharedCache.bind fun images => imageForAddress images address

/-- Record the image of a block that has not been executed yet, once for each image. -/
def recordImage (d : Dispatcher) (address : GuestAddress) (block : TranslatedBlock) : Dispatcher :=
  if block.executionCount = 0 then
    match imageOf engine address with
    | some image =>
      if image.index ∈ d.executedCacheImageIndexes then d
      else
        { d with
          executedCacheImageIndexes := image.index :: d.executedCacheImageIndexes
          cacheImageExecutions :=
            d.cacheImageExecutions ++ [⟨image, address, d.executedBlocks + 1⟩] }
    | none => d
  else d

/-- Change a block that is alive. -/
def updateBlock (cache : BlockCache) (id : BlockId) (f : TranslatedBlock → TranslatedBlock) :
    BlockCache :=
  { cache with heap := Function.update cache.heap id ((cache.heap id).map f) }

/-- Record the executions of a block. -/
def recordExecutions (d : Dispatcher) (address : GuestAddress) (id : BlockId) (count : Nat) :
    Dispatcher :=
  { d with
    executedBlocks := (d.executedBlocks + count) % 2 ^ 64
    cache := updateBlock d.cache id fun block =>
      { block with executionCount := (block.executionCount + count) % 2 ^ 64 }
    recentBlocks :=
      if 16 ≤ count then d.recentBlocks.fill address
      else (List.replicate count address).foldl RingBuffer.push d.recentBlocks }

/-! ## Turns -/

/-- What `run` does after a block returned. -/
def dispatchExit (returnSentinel : Option GuestAddress) (address : GuestAddress)
    (block : TranslatedBlock) (exit : BlockExit) (p : Process) : TurnEnd E × Process :=
  -- the switch, with the calls that it makes
  let ofTurn (calls : List Call) (result : TurnResult E) : TurnEnd E × Process :=
    (match result.1 with
      | .ok true => .goesOn
      | .ok false => .returned
      | .error e => .failed (.dispatch e), { p.does calls with guest := result.2.1 })
  match exit with
  | .continue => (.goesOn, p)
  | .call =>
    let dispatched : DispatchedBlock := ⟨⟨0, [], 0⟩, block.callReturnAddress⟩
    let calls : List Call :=
      match block.callReturnAddress with
      | some returnAddress =>
        if p.guest.regs .rsp < 8 then [] else [.writeWord (p.guest.regs .rsp - 8) 8 returnAddress]
      | none => []
    ofTurn calls (dispatchCall dispatched address p.guest p.space)
  | .return =>
    ofTurn [.readWord (p.guest.regs .rsp) 8] (dispatchReturn returnSentinel p.guest p.space)
  | .syscall =>
    let execution := engine.syscall block.lastInstructionAddress p.guest p.space
    (match execution.outcome with
      | .ok outcome => if outcome.exited then .exited outcome.exitStatus else .goesOn
      | .error e => .failed (.dispatch e), { p.does execution.calls with guest := execution.guest })
  | .memoryFault =>
    (.failed (.thrown "generated block reported a guest-memory fault without detail"), p)
  | .executionFault =>
    (.failed (.thrown "generated block reported a guest execution fault without detail"), p)

/-- The turn after its block was selected, with how often the block was executed. -/
def executeSelected (returnSentinel : Option GuestAddress) (maximumBlocks : Nat) (id : BlockId)
    (block : TranslatedBlock) (p : Process) : TurnEnd E × Nat × Process :=
  let address := p.guest.rip
  let p := p.update fun d => d.recordImage engine address block
  let remainingBlocks := maximumBlocks - p.dispatcher.executedBlocks
  match batchLimit engine block remainingBlocks (p.dispatcher.tiers id) with
  | (.error message, tier) =>
    (.failed (.thrown message), 0, p.update fun d => d.setTier id tier)
  | (.ok limit, tier) =>
    let p := p.update fun d => d.setTier id tier
    let execution := executeRepeated engine tier block limit p.guest p.space
    let p := { p.does execution.calls with guest := execution.guest }
    match execution.result with
    | .error e => (.failed (.dispatch e), 0, p)
    | .ok (exit, count) =>
      let p := p.update fun d => d.recordExecutions address id count
      let (ended, p) := dispatchExit engine returnSentinel address block exit p
      (ended, count, p)

/-- One turn of the loop of `run`, with what it executed. -/
def turn (refusal : Option String) (returnSentinel : Option GuestAddress) (maximumBlocks : Nat)
    (p : Process) : TurnEnd E × Option Executed × Process :=
  match selectBlock engine refusal p with
  | (.error e, p') => (.failed e, none, p')
  | (.ok id, p') =>
    match p'.dispatcher.cache.heap id with
    | none => (.failed (.cache .dangling), none, p')
    | some block =>
      let (ended, count, q) := executeSelected engine returnSentinel maximumBlocks id block p'
      (ended, some ⟨p.guest.rip, id, p.dispatcher.executedBlocks, count⟩, q)

/-! ## Runs -/

/-- The beginning of `run`. -/
def enter (g : GuestState) (p : Process) : Process where
  dispatcher :=
    { p.dispatcher with
      executedBlocks := 0
      recentBlocks := { p.dispatcher.recentBlocks with count := 0, next := 0 }
      cache := p.dispatcher.cache.resetExecutionCounts
      executedCacheImageIndexes := []
      cacheImageExecutions := [] }
  guest := g
  history := p.history

/-- The result of a run that ends now. -/
def result (d : Dispatcher) (exited : Bool) (exitStatus : Int) : DispatchResult :=
  ⟨d.executedBlocks, d.cache.blocks.keys.length, exited, exitStatus⟩

/-- The loop of `run`, with what its turns executed. -/
def runLoop (refusals : Nat → Option String) (returnSentinel : Option GuestAddress)
    (maximumBlocks : Nat) : Nat → Nat → Process → RunEnd E × List Executed × Process
  | 0, _, p => (.unfinished, [], p)
  | fuel + 1, n, p =>
    if p.dispatcher.executedBlocks < maximumBlocks then
      match turn engine (refusals n) returnSentinel maximumBlocks p with
      | (.goesOn, executed, q) =>
        let (ended, log, r) := runLoop refusals returnSentinel maximumBlocks fuel (n + 1) q
        (ended, executed.toList ++ log, r)
      | (.returned, executed, q) => (.returned (q.dispatcher.result false 0), executed.toList, q)
      | (.exited exitStatus, executed, q) =>
        (.returned (q.dispatcher.result true exitStatus), executed.toList, q)
      | (.failed e, executed, q) => (.failed e, executed.toList, q)
    else (.failed (.thrown "guest block limit reached before exit or return sentinel"), [], p)

/-- `run`. -/
def run (refusals : Nat → Option String) (returnSentinel : Option GuestAddress)
    (maximumBlocks fuel : Nat) (g : GuestState) (p : Process) :
    RunEnd E × List Executed × Process :=
  runLoop engine refusals returnSentinel maximumBlocks fuel 0 (enter g p)

/-- `hotBlocks`. -/
def hotBlocks (d : Dispatcher) (minimumExecutions limit : Nat) : List (GuestAddress × Nat) :=
  let counted := d.cache.blocks.entries.filterMap fun entry =>
    (d.cache.heap entry.2).bind fun block =>
      if minimumExecutions ≤ block.executionCount then some (entry.1, block.executionCount)
      else none
  (counted.mergeSort fun a b => decide (b.2 < a.2 ∨ a.2 = b.2 ∧ a.1 ≤ b.1)).take limit

end Dispatcher

end Rosa
