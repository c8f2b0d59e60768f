import OpenClickNP.Lib.Loop
import OpenClickNP.Lib.Positional
import OpenClickNP.Lib.Montgomery
import OpenClickNP.Lib.PowerLoop
import OpenClickNP.Lib.Garner
import OpenClickNP.Lib.OverwriteMap
import OpenClickNP.Lib.Blocks
import OpenClickNP.Lib.Deal
import OpenClickNP.Lib.Frames
import OpenClickNP.Lib.ByteMem
import OpenClickNP.Lib.Run
import OpenClickNP.Lib.FoldM
import OpenClickNP.Lib.QualifiedName
import OpenClickNP.Lib.Production
import OpenClickNP.Lib.Rounds
import OpenClickNP.Lib.BlockFold
import OpenClickNP.Lib.CounterMode
import OpenClickNP.Lib.KeyedFifo
import OpenClickNP.Lib.RoundRobin
import OpenClickNP.Lib.DepthFirst
import OpenClickNP.Lib.BigEndian
import OpenClickNP.Lib.Transducer
import OpenClickNP.Bigint.Word
import OpenClickNP.Bigint.Limbs
import OpenClickNP.Bigint.Arith
import OpenClickNP.Bigint.MontMul
import OpenClickNP.Bigint.ModExp
import OpenClickNP.Bigint.RsaCrt
import OpenClickNP.Compiler.Ast
import OpenClickNP.Compiler.Graph
import OpenClickNP.Compiler.Resolver
import OpenClickNP.Compiler.HandInline
import OpenClickNP.Compiler.Inlining
import OpenClickNP.Compiler.InliningExact
import OpenClickNP.Compiler.KernelNames
import OpenClickNP.Compiler.Lower
import OpenClickNP.Compiler.Placement
import OpenClickNP.Compiler.SwEmuWiring
import OpenClickNP.Compiler.Lexer
import OpenClickNP.Compiler.Scanning
import OpenClickNP.Compiler.Spelling
import OpenClickNP.Compiler.OpaqueBlock
import OpenClickNP.Compiler.Parser
import OpenClickNP.Compiler.Syntax
import OpenClickNP.Compiler.Parsing
import OpenClickNP.Compiler.Layout
import OpenClickNP.Compiler.ChainPorts
import OpenClickNP.Compiler.Buffer
import OpenClickNP.Compiler.Files
import OpenClickNP.Compiler.Printing
import OpenClickNP.Compiler.Imports
import OpenClickNP.Compiler.BeyondReach
import OpenClickNP.Compiler.InlineInstances
import OpenClickNP.Lib.Finishing
import OpenClickNP.Compiler.LexerProgress
import OpenClickNP.Compiler.ParserProgress
import OpenClickNP.Compiler.ParserTermination
import OpenClickNP.Runtime.Flit
import OpenClickNP.Runtime.SwStream
import OpenClickNP.Runtime.SignalRegs
import OpenClickNP.Runtime.SignalRpc
import OpenClickNP.Runtime.Aes128
import OpenClickNP.Runtime.Fips180
import OpenClickNP.Runtime.Sha1
import OpenClickNP.Runtime.Pcap
import OpenClickNP.Runtime.Packets
import OpenClickNP.Runtime.EvpCtr
import OpenClickNP.Backend.KernelLoop
import OpenClickNP.Backend.Lossless
import OpenClickNP.Backend.HandlerCalls
import OpenClickNP.Backend.Transduction
import OpenClickNP.Backend.Network
import OpenClickNP.Backend.NullStream
import OpenClickNP.Backend.PortDiscipline
import OpenClickNP.Backend.SystemC
import OpenClickNP.Shell.SlotRouting
import OpenClickNP.Shell.SlotMux
import OpenClickNP.Shell.SlotLink
import OpenClickNP.Runtime.SlotBridge
import OpenClickNP.Elements.RsaModExp
import OpenClickNP.Elements.RsaModExpRun
import OpenClickNP.Elements.RsaModExpService
import OpenClickNP.Elements.DropEnforcer
import OpenClickNP.Elements.LookupAct
import OpenClickNP.Elements.AclTcam
import OpenClickNP.Elements.AesPipeline
import OpenClickNP.Elements.AesPipelineRun
import OpenClickNP.Elements.AesCtr
import OpenClickNP.Elements.AesPackets
import OpenClickNP.Elements.Sha1
import OpenClickNP.Elements.RateLimiter
import OpenClickNP.Elements.HashTable
import OpenClickNP.Elements.Firewall
import OpenClickNP.Ssl.LimbBytes
import OpenClickNP.Ssl.BnModExp
import OpenClickNP.Ssl.RsaModExp
import OpenClickNP.Lib.Windows
import OpenClickNP.Runtime.SignalWindows
import OpenClickNP.Runtime.SignalDispatch
import OpenClickNP.Shell.Status
import OpenClickNP.Compiler.BraceBlock
import OpenClickNP.Lib.Acyclic
import OpenClickNP.Compiler.Faults
import OpenClickNP.Compiler.GroupRecursion
import OpenClickNP.Lib.Tarjan
import OpenClickNP.Lib.TarjanSearch
import OpenClickNP.Compiler.Cycles
import OpenClickNP.Compiler.FileIds
import OpenClickNP.Lib.Keeping
import OpenClickNP.Compiler.Driver
import OpenClickNP.Compiler.CppText
import OpenClickNP.Backend.BodyRewrite
import OpenClickNP.Backend.StateStruct
import OpenClickNP.Compiler.ExitStatus
import OpenClickNP.Backend.HostStubs
import OpenClickNP.Backend.PortMasks
import OpenClickNP.Backend.Connectivity
import OpenClickNP.Lib.StoreForward
import OpenClickNP.Elements.PacketBuffer
import OpenClickNP.Compiler.Identifiers
import OpenClickNP.Backend.DerivedNames
import OpenClickNP.Compiler.Expansion
import OpenClickNP.Compiler.ChainDepths
import OpenClickNP.Backend.ChannelDepth
import OpenClickNP.Compiler.Literals
import OpenClickNP.Compiler.LiteralFields
import OpenClickNP.Lib.Mirroring
import OpenClickNP.Compiler.Respelling
import OpenClickNP.Compiler.SideBySide
import OpenClickNP.Compiler.BaseIndependence
import OpenClickNP.Elements.FixSopEop
import OpenClickNP.Lib.Framing
import OpenClickNP.Elements.CheckSopEop
import OpenClickNP.Backend.CallChain
import OpenClickNP.Elements.Demux
import OpenClickNP.Backend.PortService
import OpenClickNP.Elements.Mux
import OpenClickNP.Elements.RoundRobinQueues
import OpenClickNP.Backend.SignalledCalls
import OpenClickNP.Lib.PrefixMatch
import OpenClickNP.Elements.LpmTree
import OpenClickNP.Elements.LpmTreeBounds
import OpenClickNP.Elements.L4LoadBalancer
import OpenClickNP.Lib.Slots
import OpenClickNP.Lib.BinaryHeap
import OpenClickNP.Elements.MinHeap
import OpenClickNP.Lib.PriorityFifo
import OpenClickNP.Elements.PriorityQueues
import OpenClickNP.Lib.RingBuffer
import OpenClickNP.Lib.QueueBank
import OpenClickNP.Elements.MultiFifo
import OpenClickNP.Elements.TokenLimiters
import OpenClickNP.Lib.Pipeline
import OpenClickNP.Elements.FlowCache
import OpenClickNP.Elements.Counter
import OpenClickNP.Elements.Tcams
import OpenClickNP.Elements.FirstFlit
import OpenClickNP.Elements.FlowTupleParser
import OpenClickNP.Elements.IpChecksum
import OpenClickNP.Elements.PacketSetDip
import OpenClickNP.Elements.TrafficGen
import OpenClickNP.Backend.Progress
import OpenClickNP.Elements.MontMul
import OpenClickNP.Elements.MontMulService
import OpenClickNP.Runtime.PcapLayouts
import OpenClickNP.Bigint.Mul
import OpenClickNP.Lib.TextLines
import OpenClickNP.Compiler.Walking
import OpenClickNP.Compiler.LexerPositions
import OpenClickNP.Lib.Histories
import OpenClickNP.Backend.DataFlow
import OpenClickNP.Backend.EmulatedGraph
import OpenClickNP.Backend.EmulatedRuns
import OpenClickNP.Elements.FlitActs
import OpenClickNP.Elements.Forwarding
import OpenClickNP.Elements.Rendezvous
import OpenClickNP.Backend.Serialized
import OpenClickNP.Elements.FlowState
import OpenClickNP.Elements.AesEcb
import OpenClickNP.Elements.FrameKeeping
import OpenClickNP.Topologies.Library
import OpenClickNP.Topologies.Sha1Pipeline
import OpenClickNP.Topologies.WholePackets
import OpenClickNP.Topologies.IpsecEsp
import OpenClickNP.Lib.LastWrite
import OpenClickNP.Elements.HostTables
import OpenClickNP.Elements.Monitors
import OpenClickNP.Elements.FlowControl
import OpenClickNP.Elements.Sha1Block
import OpenClickNP.Lib.BlockTransfer
import OpenClickNP.Ssl.AesEcb
import OpenClickNP.Elements.Delays
import OpenClickNP.Lib.Xorshift
import OpenClickNP.Elements.RandomSources
import OpenClickNP.Elements.TcpChecksum
import OpenClickNP.Backend.Settling
