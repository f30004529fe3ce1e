import Resister.Garnet.CommonTypes
import Resister.Garnet.RoutingUnit
import Resister.Garnet.Outport
import Resister.Library.ShortestPath
import Resister.Library.CreditChannel
import Resister.Library.Placement
import Resister.Network.Topology
import Resister.Network.Paths
import Resister.Network.TableRouting
import Resister.Network.MeshXY
import Resister.Network.MeshRoute
import Resister.Network.MeshTable
import Resister.Network.Detour
import Resister.Network.ChannelDependency
import Resister.Garnet.CreditFlow
import Resister.Garnet.Places
import Resister.Network.GarnetNetwork
import Resister.Library.Footprint
import Resister.Library.TokenRing
import Resister.Garnet.Updates
import Resister.Garnet.InputState
import Resister.Garnet.HistoryRecord
import Resister.Garnet.DetourRate
import Resister.Garnet.Multicast
import Resister.Garnet.Ejection
import Resister.Garnet.TdmaToken
import Resister.Garnet.TdmaSchedule
import Resister.Network.Valiant
import Resister.Network.WestFirst
import Resister.Network.PathTrace
import Resister.Network.MessageCapacity
import Resister.Network.PatternDefence
import Resister.Garnet.CreditStarvation
import Resister.Garnet.FunctionalAccess
import Resister.Base.RangeExclusion
import Resister.Base.RangeOffset
import Resister.Base.AddrRangeMap
import Resister.Network.BufferAccess
import Resister.Sim.Consumer
import Resister.Sim.EventOrder
import Resister.Garnet.EventQueue
import Resister.Garnet.RouterWakeups
import Resister.Garnet.LostWakeups
import Resister.Base.AddrRangeCache
import Resister.Base.ChunkGenerator
import Resister.Base.TrieRemoval
import Resister.Cache.SkewedAssociative
import Resister.Cache.SnoopFilter
import Resister.Cache.Huffman
import Resister.Cache.Compressors
import Resister.Mem.PacketQueue
import Resister.Cpu.Rename
import Resister.Network.CounterRouting
import Resister.Garnet.PacketIds
import Resister.Garnet.SwitchAllocation
import Resister.Garnet.RouterStats
import Resister.Ruby.DmaSequencer
import Resister.Ruby.StalledBuffers
import Resister.Ruby.CacheMemory
import Resister.Sim.EventVerify
import Resister.Cpu.TrafficPattern
