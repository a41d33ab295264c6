import KtKernel.Amx.DecodePools
import KtKernel.Amx.DecodePrefill
import KtKernel.Amx.ExpertFiles
import KtKernel.Amx.ExpertTables
import KtKernel.Amx.Forward
import KtKernel.Amx.PrefillPools
import KtKernel.Amx.Routing
import KtKernel.Backends.Conventions
import KtKernel.Data.Carving
import KtKernel.Data.Checks
import KtKernel.Data.Copies
import KtKernel.Data.Counting
import KtKernel.Data.Faults
import KtKernel.Data.Fifo
import KtKernel.Data.FileTree
import KtKernel.Data.Json
import KtKernel.Data.Lines
import KtKernel.Data.Machine
import KtKernel.Data.Outline
import KtKernel.Data.Stores
import KtKernel.Data.Tiling
import KtKernel.Experts.Conservation
import KtKernel.Experts.Pinned
import KtKernel.Experts.Pipeline
import KtKernel.Experts.PipelineInvariant
import KtKernel.Fp8.Export
import KtKernel.Fp8.ExportExact
import KtKernel.Fp8.Load
import KtKernel.Fp8.Ranks
import KtKernel.Fp8.Resharded
import KtKernel.Fp8.Rows
import KtKernel.Fp8.ScalesExact
import KtKernel.Fp8.Spread
import KtKernel.Fp8.Tables
import KtKernel.Fp8.Tiles
import KtKernel.K2.Blocked
import KtKernel.K2.Export
import KtKernel.K2.ExportExact
import KtKernel.K2.Linear
import KtKernel.K2.Load
import KtKernel.K2.Misaligned
import KtKernel.K2.Reshard
import KtKernel.K2.Tables
import KtKernel.Llamafile.Load
import KtKernel.Llamafile.Slots
import KtKernel.Sft.Backward
import KtKernel.Sft.CacheDepth
import KtKernel.Sft.CachePaths
import KtKernel.Sft.CacheStack
import KtKernel.Sft.Checkpoint
import KtKernel.Sft.CheckpointRuns
import KtKernel.Sft.CheckpointSave
import KtKernel.Sft.DirectCache
import KtKernel.Sft.Dropout
import KtKernel.Sft.Ephemeral
import KtKernel.Sft.Forward
import KtKernel.Sft.GradMerge
import KtKernel.Sft.GradWindow
import KtKernel.Sft.Inference
import KtKernel.Sft.OptimizerWindow
import KtKernel.Sft.Partials
import KtKernel.Sft.Routing
import KtKernel.Sft.RowJobs
import KtKernel.Sft.Slices
import KtKernel.Sft.WeightManifest
import KtKernel.Sft.WeightNames
import KtKernel.Sft.WeightTrees
import KtKernel.Sft.WeightWriter
import KtKernel.Sft.Wrapper
import KtKernel.SharedMemory.Basic
import KtKernel.SharedMemory.Pointers
import KtKernel.TaskQueue.Basic
import KtKernel.TaskQueue.Invariant
import KtKernel.TaskQueue.Order
import KtKernel.Transport.Basic
import KtKernel.Transport.Delivery
import KtKernel.Transport.Epochs
import KtKernel.Transport.Failures
import KtKernel.Transport.Moves
import KtKernel.Transport.Poison
import KtKernel.Transport.Slots
import KtKernel.WorkerPool.Basic
import KtKernel.WorkerPool.Invariant
import KtKernel.WorkerPool.Jobs
import KtKernel.WorkerPool.Placement
import KtKernel.WorkerPool.Steps
import KtKernel.Data.Custody
import KtKernel.Experts.CpuBuffers
import KtKernel.CpuInfer.Basic
import KtKernel.CpuInfer.Failures
import KtKernel.Sft.SharedBuffer
import KtKernel.Sft.SharedBufferRuns
import KtKernel.Experts.Paths
import KtKernel.Experts.PathsInvariant
import KtKernel.Experts.PathsAgree
import KtKernel.Sft.CheckpointCache
import KtKernel.Sft.CheckpointCacheRuns
import KtKernel.Data.PathTree
import KtKernel.Sft.WeightStore
import KtKernel.Sft.WeightStoreSafety
import KtKernel.Sft.WeightStoreTidy
import KtKernel.Sft.WeightStoreRuns
import KtKernel.Sft.WeightStoreOpen
import KtKernel.Sft.LoraSlices
import KtKernel.Ascend.CallbackWorker
import KtKernel.Ascend.Subscriptions
import KtKernel.CpuInfer.Shutdown
import KtKernel.CpuInfer.ShutdownRuns
import KtKernel.Data.Interleaving
import KtKernel.Avx2.PackedGemm
import KtKernel.Avx2.PackedOrder
import KtKernel.Avx2.NativeLoad
import KtKernel.Avx2.NativeSlots
import KtKernel.Avx2.ExpertMaps
import KtKernel.Data.Jobs
import KtKernel.Data.Shards
import KtKernel.Avx2.NativeExport
import KtKernel.Avx2.NativeRanks
import KtKernel.Avx2.NativeExportWalks
import KtKernel.Avx2.NativeExportShares
import KtKernel.Avx2.NativeExportExact
import KtKernel.Data.Topk
import KtKernel.Experts.Deferred
import KtKernel.Sft.GroupRouting
import KtKernel.Amx.Transpose
import KtKernel.Data.Loops
import KtKernel.Data.Overwrites
import KtKernel.Data.Panels
import KtKernel.Amx.VnniTiles
import KtKernel.Amx.Bf16Weights
import KtKernel.Fp8.Repack
import KtKernel.Fp8.RepackExact
import KtKernel.Data.Cells
import KtKernel.Experts.WeightSources
import KtKernel.Loaders.SafeTensorLoader
import KtKernel.Data.Chunks
import KtKernel.Convert.OnlineQuant
import KtKernel.Data.Binary32
import KtKernel.Convert.Mxfp4
import KtKernel.Data.Tensors
import KtKernel.Sft.WeightParts
import KtKernel.Sft.Rawint4Staging
import KtKernel.Sft.Rawint4StagingRuns
import KtKernel.Data.Lanes
import KtKernel.Data.Threads
import KtKernel.Avx2.VnniGptq
import KtKernel.Avx2.VnniGptqDots
import KtKernel.Avx2.VnniGptqLoads
import KtKernel.Avx2.VnniGptqAgree
import KtKernel.Data.SmallFloats
import KtKernel.Avx2.Mxfp4Gemm
import KtKernel.Avx2.Mxfp4Paths
import KtKernel.Avx2.Mxfp4Agree
import KtKernel.Avx2.NativeGemm
import KtKernel.Avx2.NativeGemmExact
import KtKernel.Avx2.NativeGemmScales
import KtKernel.Data.Gather
import KtKernel.Amx.Mxfp4Buffers
import KtKernel.Amx.Mxfp4Kernels
import KtKernel.Amx.Mxfp4Scales
import KtKernel.Amx.Mxfp4Elements
import KtKernel.Amx.Mxfp4Stores
import KtKernel.Amx.Mxfp4Agree
import KtKernel.Amx.Mxfp4Dispatch
import KtKernel.Data.Dicts
import KtKernel.Convert.MergeShards
import KtKernel.Convert.AwqRepack
import KtKernel.KvCache.BlockSimilarity
import KtKernel.Data.Streams
import KtKernel.KvCache.Files
import KtKernel.Data.Gemm
import KtKernel.Data.LogSums
import KtKernel.KvCache.BlockAttention
import KtKernel.KvCache.Attention
