import CatKV.ByteString
import CatKV.ObjectName
import CatKV.ByteParser
import CatKV.TensorMapCodec
import CatKV.TensorMapGrammar
import CatKV.ParserSoundness
import CatKV.TensorMapRoundTrip
import CatKV.Transition
import CatKV.RingAllocator
import CatKV.Arena
import CatKV.ArenaSafety
import CatKV.Payload
import CatKV.Ledger
import CatKV.Pipeline
import CatKV.PipelineEffect
import CatKV.PipelineLive
import CatKV.GroupExclusion
import CatKV.Provenance
import CatKV.SaveNames
import CatKV.UploadPresence
import CatKV.VersionStates
import CatKV.ByteAccounting
import CatKV.QueueConservation
import CatKV.LockOrder
import CatKV.NativeLocks
import CatKV.ReadBack
import CatKV.CrossRun
import CatKV.MemoryStore
import CatKV.ContextManager
import CatKV.RequestEffect
import CatKV.RequestPartition
import CatKV.CopyLoop
import CatKV.ReusePlacement
import CatKV.PrefetchPlan
import CatKV.KeySvNames
import CatKV.StoreMode
import CatKV.PrefetchAdapter
import CatKV.PrefetchAlignment
import CatKV.PrefetchIds
import CatKV.Tiling
import CatKV.ChunkedTokens
import CatKV.Retrieve
import CatKV.FetchBlocks
import CatKV.RetrieveMask
import CatKV.AsyncRetrieve
import CatKV.AsyncPairing
import CatKV.RequestTracker
import CatKV.LoadPromise
import CatKV.SaveSchedule
import CatKV.LookupPrefix
import CatKV.FreeList
import CatKV.MemoryObject
import CatKV.ReferenceCount
import CatKV.TensorAllocator
import CatKV.AllocatorSafety
import CatKV.PagedAllocator
import CatKV.PageOwnership
import CatKV.OrderedDict
import CatKV.LocalCpuBackend
import CatKV.EvictionSafety
import CatKV.EngineReferences
import CatKV.ReferenceBalance
import CatKV.PythonText
import CatKV.CacheEngineKey
import CatKV.KeyCodec
import CatKV.KeyIdentity
import CatKV.WireMessages
import CatKV.WireRoundTrip
import CatKV.ChunkKeys
import CatKV.MultimodalKeys
import CatKV.CachePolicies
import CatKV.LocalDiskBackend
import CatKV.DiskReads
import CatKV.DiskAccounting
import CatKV.History
import CatKV.CacheController
import CatKV.ControllerView
import CatKV.RegistrationMaps
import CatKV.CpuBufferPool
import CatKV.OffloadSlots
import CatKV.PinnedRing
import CatKV.OffloadFailures
import CatKV.PipelineDrain
import CatKV.EnqueueDecision
import CatKV.GpuArenaFailures
import CatKV.Segments
import CatKV.GroupCompressor
import CatKV.GroupedSlices
import CatKV.TensorLayout
import CatKV.FusedKernels
import CatKV.FusedDecompression
import CatKV.SharedKeyFactors
import CatKV.RankBudget
import CatKV.SvdFallback
import CatKV.TokenSelection
import CatKV.SeparatorSplit
import CatKV.SharedPaths
import CatKV.LayerParsing
import CatKV.BatchLayout
import CatKV.LookupService
import CatKV.AsyncLookup
import CatKV.OffloadFlush
import CatKV.ObjectUrl
import CatKV.RankBroadcast
