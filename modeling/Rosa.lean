import Rosa.IR.Syntax
import Rosa.IR.Flags
import Rosa.IR.Semantics
import Rosa.IR.Optimization
import Rosa.IR.Definitions
import Rosa.Logic.Computation
import Rosa.Logic.Codec
import Rosa.Logic.LowBits
import Rosa.Logic.Lanes
import Rosa.Logic.NumberedLoops
import Rosa.Guest.AddressSpace
import Rosa.Guest.Invariant
import Rosa.Guest.Access
import Rosa.Guest.Mappings
import Rosa.Guest.Slices
import Rosa.Guest.Calls
import Rosa.Guest.LazyPages
import Rosa.Guest.ExecutableVersion
import Rosa.Guest.TransformedImage
import Rosa.Dbt.BlockCache
import Rosa.Dbt.Relocation
import Rosa.Dbt.Ownership
import Rosa.Dbt.PersistentCache
import Rosa.Dbt.RoundTrip
import Rosa.Dbt.LoopAnalysis
import Rosa.Dbt.LlvmBackend
import Rosa.Dbt.LoopRefinement
import Rosa.Arm64.Assembler
import Rosa.Arm64.DirectRead
import Rosa.Arm64.DirectSpans
import Rosa.Arm64.FlagCode
import Rosa.Arm64.ConditionCode
import Rosa.Guest.LookupCache
import Rosa.Guest.MappingBatch
import Rosa.Guest.Cells
import Rosa.Dbt.DirectMemory
import Rosa.Dbt.SimdHelpers
import Rosa.Dbt.SimdMemory
import Rosa.Guest.WrittenBytes
import Rosa.Guest.ReadableBytes
import Rosa.Darwin.SlideInfo
import Rosa.Arm64.NarrowWrites
import Rosa.Arm64.FlagFusion
import Rosa.Arm64.RegisterAssignment
import Rosa.Arm64.HelperCalls
import Rosa.Darwin.PortSpace
import Rosa.Darwin.MachTraps
import Rosa.Guest.SettledPages
import Rosa.Darwin.MachMemory
import Rosa.Darwin.FailedTraps
import Rosa.IR.Builder
import Rosa.X86.Instruction
import Rosa.X86.Addresses
import Rosa.X86.XmmMoves
import Rosa.X86.Operations
import Rosa.X86.OperationFlags
import Rosa.X86.ShiftLowering
import Rosa.X86.ProductLowering
import Rosa.X86.OperationLowering
import Rosa.Dbt.CallReturn
import Rosa.Dbt.DivideHelpers
import Rosa.Dbt.FlagHelpers
import Rosa.Darwin.FreeRanges
import Rosa.Darwin.ChainSlots
import Rosa.Darwin.SlideChains
import Rosa.Darwin.LinkedPages
import Rosa.Arm64.LinkedBranches
import Rosa.Dbt.PersistentLoad
import Rosa.Guest.WordReads
import Rosa.Guest.StartupStack
import Rosa.Macho.MachOFile
import Rosa.Macho.Loader
import Rosa.Dbt.StringHelpers
import Rosa.Arm64.LinearScan
import Rosa.Arm64.OptimizedBlocks
import Rosa.Arm64.CodeBuffer
import Rosa.Dbt.CacheTransparency
import Rosa.Logic.RingBuffer
import Rosa.Dbt.Dispatcher
import Rosa.Dbt.DispatchCoherence
import Rosa.Dbt.DispatchRuns
import Rosa.Dbt.DispatchTiers
import Rosa.Logic.SharedTable
import Rosa.Darwin.FileSpace
import Rosa.Dbt.MemoryArithmetic
import Rosa.Darwin.Directory
import Rosa.Darwin.SharedCache
import Rosa.Darwin.MapInto
