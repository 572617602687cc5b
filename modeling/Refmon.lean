import Refmon.CString
import Refmon.Library.Blocks
import Refmon.Library.Decimal
import Refmon.Library.Extents
import Refmon.Library.Fitting
import Refmon.Library.Incremental
import Refmon.Library.Ledger
import Refmon.Library.LittleEndian
import Refmon.Library.OrderedMap
import Refmon.Library.OverlappingCopy
import Refmon.Library.PathWalk
import Refmon.Library.ReadLoop
import Refmon.Library.Runs
import Refmon.Library.InstancePool
import Refmon.Library.SeparatedText
import Refmon.Library.SlashPath
import Refmon.Library.WorkQueue
import Refmon.Library.Wp
import Refmon.Kernel
import Refmon.Hash
import Refmon.Memory
import Refmon.Refmonfs
import Refmon.LogRecords
import Refmon.LogWrites
import Refmon.RefmonfsMount
import Refmon.LogReads
import Refmon.LogRemount
import Refmon.Scth
import Refmon.Load
import Refmon.LoadSpecs
import Refmon.LoadSteps
import Refmon.LoadProgress
import Refmon.UnreadableBlocks
import Refmon.UserMemory
import Refmon.State
import Refmon.Probing
import Refmon.Safety
import Refmon.Vfs
import Refmon.FailedLoad
import Refmon.Fsutils
import Refmon.FsutilsSpecs
import Refmon.NamespaceSpecs
import Refmon.ProbingHandlers
import Refmon.HookSpecs
import Refmon.Kretprobes
import Refmon.DeferredLog
import Refmon.LogLines
import Refmon.MountNamespace
import Refmon.Layout
import Refmon.SyscallHandlers
import Refmon.SafetySpecs
import Refmon.HandlerSpecs
import Refmon.CallSpecs
import Refmon.Calls
import Refmon.Authorisation
import Refmon.CallAtomicity
import Refmon.DentryPaths
import Refmon.PathBuffer
import Refmon.PathReferences
import Refmon.Registrations
import Refmon.DentryIdentity
import Refmon.DeferredLogSpecs
import Refmon.DeferSpecs
import Refmon.FileHash
import Refmon.HashResources
import Refmon.LogFeedback
import Refmon.OpenMediation
import Refmon.Eligibility
import Refmon.OverBlocking
import Refmon.ProbeInstances
import Refmon.OpenProbes
import Refmon.RegistryMap
import Refmon.RemovalMediation
import Refmon.SanitisedInput
import Refmon.SentinelInode
import Refmon.Spellings
import Refmon.StateValidity
import Refmon.ProbeAgreement
import Refmon.SyscallCodes
import Refmon.RegistryListing
import Refmon.RegistryPage
import Refmon.SyscallTable
import Refmon.ConcurrentLoad
import Refmon.PatientProcesses
import Refmon.UserTool
import Refmon.WriteFlags
import Refmon.Library.LinkedList
import Refmon.Library.ListReaders
import Refmon.Library.ListSearches
import Refmon.Library.Simulation
import Refmon.Library.Traces
import Refmon.UnseenRegistry
import Refmon.LinkedRegistry
import Refmon.LinkedRegistrySpecs
import Refmon.LinkedRuns
import Refmon.RegistryReaders
import Refmon.RegistrySearches
import Refmon.SearchLength
import Refmon.LogContents
import Refmon.Accesses
import Refmon.Enforcement
import Refmon.AuditTrail
import Refmon.Protection
import Refmon.FreeEntries
import Refmon.CallErrors
import Refmon.ToolSession
import Refmon.LastSet
import Refmon.ToolReports
