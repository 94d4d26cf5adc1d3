import P4Survey.Lib.System
import P4Survey.Lib.Register
import P4Survey.Lib.Voting
import P4Survey.Lib.Wire
import P4Survey.Lib.Inet
import P4Survey.NetPaxos.Acceptor
import P4Survey.Lib.Decree
import P4Survey.NetPaxos.Agreement
import P4Survey.NetPaxos.Coordinator
import P4Survey.NetPaxos.Durability
import P4Survey.NetChain.Config
import P4Survey.NetPaxos.FastPath
import P4Survey.NetChain.Refusal
import P4Survey.NetChain.Write
import P4Survey.NetChain.Consistency
import P4Survey.NetChain.Convergence
import P4Survey.NetChain.Parser
import P4Survey.NetChain.Reparse
import P4Survey.NetChain.Recovery
import P4Survey.NetChain.RecoveryPairs
import P4Survey.NetChain.Client
import P4Survey.NetChain.Lengths
import P4Survey.Ndp.Pacer
import P4Survey.Ndp.Sink
import P4Survey.Ndp.Network
import P4Survey.Ndp.Tokens
import P4Survey.Ndp.Stranding
import P4Survey.NetCache.Parser
import P4Survey.NetCache.Stages
import P4Survey.NetCache.Coherence
import P4Survey.Lib.Sketch
import P4Survey.NetCache.HeavyHitter
import P4Survey.NetCache.Foreign
import P4Survey.HashPipe.Accounting
import P4Survey.Lib.FlowTable
import P4Survey.HashPipe.DLeft
import P4Survey.HashPipe.SpaceSaving
import P4Survey.HashPipe.StageOverflow
import P4Survey.HashPipe.HeavyHitters
import P4Survey.Lib.Memory
import P4Survey.SketchLearn.RingBuffer
import P4Survey.Ndp.Pacing
import P4Survey.Ndp.Mesh
import P4Survey.Ndp.Window
import P4Survey.Ndp.Places
import P4Survey.Speedlight.Parser
import P4Survey.Speedlight.Pipeline
import P4Survey.Speedlight.Counting
import P4Survey.Speedlight.Network
import P4Survey.Speedlight.Cut
import P4Survey.Lib.Residue
import P4Survey.Speedlight.Wrap
import P4Survey.Speedlight.Rollover
import P4Survey.Speedlight.ChannelState
import P4Survey.Speedlight.InFlight
import P4Survey.Speedlight.Notify
import P4Survey.Speedlight.Rules
import P4Survey.Speedlight.Removal
import P4Survey.Lib.Counts
import P4Survey.LinearRoad.Ingress
import P4Survey.LinearRoad.Volume
import P4Survey.LinearRoad.Stopped
import P4Survey.LinearRoad.Alerts
import P4Survey.LinearRoad.TravelEstimate
import P4Survey.Hula.BestPath
import P4Survey.Hula.FlowPorts
import P4Survey.NetPaxos.StateLaws
import P4Survey.Sonata.OpHandler
import P4Survey.Sonata.Delivery
import P4Survey.Sonata.Reduce
import P4Survey.Sonata.ReduceExact
import P4Survey.Ndp.Reassembly
import P4Survey.Ndp.Paths
import P4Survey.Ndp.Lanes
import P4Survey.Ndp.Composite
import P4Survey.Ndp.CompositePrio
import P4Survey.Ndp.Transmission
import P4Survey.Ndp.FairPulls
import P4Survey.Ndp.PriorityQueue
import P4Survey.Beamer.Switch
import P4Survey.Beamer.Encap
import P4Survey.Ndp.Lossless
import P4Survey.Ndp.LosslessSwitch
import P4Survey.Ndp.FatTree
import P4Survey.Ndp.TcpSource
import P4Survey.Lib.Words
import P4Survey.Ndp.SentPackets
import P4Survey.Ndp.CutPayload
import P4Survey.Lib.Sorted
import P4Survey.Ndp.EventList
import P4Survey.Lib.Loop
import P4Survey.SketchLearn.Counters
import P4Survey.SketchLearn.Laws
import P4Survey.SketchLearn.Serial
import P4Survey.SketchLearn.Median
import P4Survey.Ndp.TcpLaws
import P4Survey.Lib.Majority
import P4Survey.HashPipe.CountMin
import P4Survey.HashPipe.GroupCounters
import P4Survey.SketchLearn.Enumerate
import P4Survey.SketchLearn.Primes
import P4Survey.SketchLearn.HashTable
import P4Survey.SketchLearn.KeyTable
import P4Survey.Lib.Replicas
import P4Survey.NetChain.Failover
import P4Survey.Lib.Wiring
import P4Survey.Axon.Switch
import P4Survey.LinearRoad.Tolls
import P4Survey.Ndp.TcpTransfer
import P4Survey.Lib.Queues
import P4Survey.NetFpga.Stream
import P4Survey.NetFpga.Trimming
import P4Survey.NetFpga.Arbiter
import P4Survey.NetFpga.Checksum
import P4Survey.NetFpga.OutputQueues
import P4Survey.NetFpga.StoreForward
import P4Survey.NetFpga.Datapath
