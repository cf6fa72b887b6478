import GabyVm.Aarch64.BranchVisitors
import GabyVm.Aarch64.Decoder
import GabyVm.Aarch64.Instruction
import GabyVm.Aarch64.PointerAuth
import GabyVm.Aarch64.State
import GabyVm.Cache.Dispatch
import GabyVm.Cache.PredecodeCache
import GabyVm.Cache.Predecoded
import GabyVm.Cache.RangeTable
import GabyVm.Engine.Execution
import GabyVm.Engine.Host
import GabyVm.Engine.Simulator
import GabyVm.Engine.Step
import GabyVm.Foundation.OrderedTable
import GabyVm.Foundation.Outcome
import GabyVm.Foundation.Schedule
import GabyVm.Foundation.WrappedInterval
import GabyVm.Engine.HostRules
import GabyVm.Engine.Tracks
import GabyVm.Engine.TwoTracks
import GabyVm.Engine.Initial
import GabyVm.Engine.GuardedPages
import GabyVm.Engine.Trap
import GabyVm.Aarch64.TakenBranch
import GabyVm.Engine.BranchHook
import GabyVm.Engine.Visits
import GabyVm.Engine.IdentityHook
import GabyVm.Engine.Reentry
import GabyVm.Aarch64.GuardedStack
import GabyVm.Aarch64.Hidden
import GabyVm.Engine.Frames
import GabyVm.Engine.AnsweredCalls
import GabyVm.Engine.QuietCalls
import GabyVm.Engine.HiddenRuns
import GabyVm.Engine.NestedRuns
import GabyVm.Engine.Reachable
import GabyVm.Engine.Snapshot
import GabyVm.Foundation.Watch
import GabyVm.Testing.ShadowRunner
import GabyVm.Testing.FirstDivergence
import GabyVm.Aarch64.MemoryAccess
import GabyVm.Testing.FalseDivergence
import GabyVm.Cache.Untagged
import GabyVm.Engine.Executable
import GabyVm.Cache.RegistrationOutcome
import GabyVm.Engine.HookAnswer
import GabyVm.Engine.HookWrites
import GabyVm.Aarch64.CheckedAccess
import GabyVm.Aarch64.LeafMonad
import GabyVm.Aarch64.ScalarStores
import GabyVm.Aarch64.AtomicStores
import GabyVm.Aarch64.BulkStores
import GabyVm.Aarch64.VectorStores
import GabyVm.Aarch64.StorePaths
import GabyVm.Engine.StoreEvents
import GabyVm.Cache.FailedRegistration
import GabyVm.Aarch64.VectorStorage
import GabyVm.Engine.TypedRegisters
import GabyVm.Engine.MoreFuel
import GabyVm.Engine.TraceScope
import GabyVm.Engine.WholeRun
import GabyVm.Aarch64.RegisterLeaves
import GabyVm.Engine.SharedRegisters
import GabyVm.Cache.SameEntries
import GabyVm.Engine.SameCode
import GabyVm.Aarch64.Footprint
import GabyVm.Aarch64.GcsManager
import GabyVm.Engine.Footprint
import GabyVm.Foundation.Isolation
import GabyVm.Engine.Process
import GabyVm.Engine.Isolation
import GabyVm.Aarch64.DecodePaths
import GabyVm.Aarch64.PointerSigning
import GabyVm.Engine.ExclusiveMonitors
import GabyVm.Aarch64.MemoryOperations
import GabyVm.Aarch64.Checksum
import GabyVm.Aarch64.AesCipher
import GabyVm.Aarch64.Sm4Cipher
import GabyVm.Aarch64.Scratch
import GabyVm.Aarch64.SecureHash
import GabyVm.Aarch64.WideProduct
