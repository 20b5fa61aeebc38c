import Gem5Cxl.L3Protocol.BiasModes
import Gem5Cxl.L3Protocol.BiasSafety
import Gem5Cxl.L3Protocol.BridgeCredit
import Gem5Cxl.L3Protocol.BridgeRefusal
import Gem5Cxl.L3Protocol.BridgeRoute
import Gem5Cxl.L3Protocol.CheckRefusal
import Gem5Cxl.L3Protocol.FilterCalls
import Gem5Cxl.L3Protocol.FilterInclusion
import Gem5Cxl.L3Protocol.RangeRouting
import Gem5Cxl.L3Protocol.RangeSets
import Gem5Cxl.L3Protocol.ChunkGrowth
import Gem5Cxl.L3Protocol.XBarRefusal
import Gem5Cxl.L3Protocol.ProcTransfer
import Gem5Cxl.L3Protocol.DmaCover
import Gem5Cxl.L3Protocol.DmaAbort
import Gem5Cxl.L3Protocol.BarSizing
import Gem5Cxl.L3Protocol.CapabilitySpace
import Gem5Cxl.L3Protocol.DvsecWalk
import Gem5Cxl.L3Protocol.EventOrder
import Gem5Cxl.L3Protocol.LayerArbitration
import Gem5Cxl.L3Protocol.SendOrder
import Gem5Cxl.L3Protocol.RangeMapRuns
import Gem5Cxl.L3Protocol.StoreConditional
import Gem5Cxl.L3Protocol.MshrTargets
import Gem5Cxl.L3Protocol.MshrReady
import Gem5Cxl.L3Protocol.HuffmanCodes
import Gem5Cxl.L3Protocol.SkewedSets
import Gem5Cxl.L3Protocol.TrieRuns
import Gem5Cxl.L3Protocol.FilterTracking
import Gem5Cxl.L3Protocol.StackDistance
import Gem5Cxl.L3Protocol.Lossless
import Gem5Cxl.L3Protocol.FalseAlarms
import Gem5Cxl.L3Protocol.BridgeQueues
import Gem5Cxl.L3Protocol.ResponseOrder
import Gem5Cxl.L3Protocol.BufferCapacity
import Gem5Cxl.L3Protocol.RegisterOwnership
import Gem5Cxl.L3Protocol.FoldedHistories
import Gem5Cxl.L3Protocol.BarrierOrder
import Gem5Cxl.L3Protocol.AddressOrder
import Gem5Cxl.L3Protocol.IoCacheBypass
import Gem5Cxl.L3Protocol.SequencerOrder
import Gem5Cxl.L3Protocol.BridgeRegisters
import Gem5Cxl.L3Protocol.MapperRefusal
import Gem5Cxl.L3Protocol.MeshRouting
import Gem5Cxl.L3Protocol.BlockLocks
import Gem5Cxl.L3Protocol.LoopPredictor
import Gem5Cxl.L3Protocol.VirtioChain
