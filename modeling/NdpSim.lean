import NdpSim.Cache.Failure
import NdpSim.Cache.Lookup
import NdpSim.Cache.MissQueue
import NdpSim.Cache.Mshr
import NdpSim.Cache.Reservation
import NdpSim.Cache.Resize
import NdpSim.Cache.SetIndex
import NdpSim.Cache.Unique
import NdpSim.Cache.WriteBack
import NdpSim.Dram.CommandCounts
import NdpSim.Dram.RamulatorSafety
import NdpSim.Dram.TimingRules
import NdpSim.Functional.AmoAdd
import NdpSim.Functional.Lmul
import NdpSim.Functional.MaskedWrites
import NdpSim.Functional.MemoryImage
import NdpSim.Functional.MemoryMatch
import NdpSim.Functional.Pairs
import NdpSim.Functional.PointerRegions
import NdpSim.Functional.Refinement
import NdpSim.Functional.ScalarAccess
import NdpSim.Functional.ScalarArith
import NdpSim.Functional.VectorAtomics
import NdpSim.Functional.X0
import NdpSim.Isa.Compress
import NdpSim.Isa.IntegerArith
import NdpSim.Isa.MaskOperations
import NdpSim.Isa.Reductions
import NdpSim.Isa.Slides
import NdpSim.Isa.TypedAccess
import NdpSim.Network.IslipFairness
import NdpSim.Parser.RoundTrip
import NdpSim.Register.Abandoned
import NdpSim.Register.RoundTrip
import NdpSim.System.AddressFields
import NdpSim.System.BackInvalidate
import NdpSim.System.Channels
import NdpSim.System.HostLatency
import NdpSim.System.InjectionProgress
import NdpSim.System.KernelArguments
import NdpSim.System.Launch
import NdpSim.System.LaunchExclusion
import NdpSim.System.ReplyRouting
import NdpSim.Timing.Admission
import NdpSim.Timing.Atomics
import NdpSim.Timing.Barrier
import NdpSim.Timing.ControlFlow
import NdpSim.Timing.DelayQueue
import NdpSim.Timing.Fetch
import NdpSim.Timing.Finish
import NdpSim.Timing.InstAddresses
import NdpSim.Timing.IssueCheck
import NdpSim.Timing.L1Answers
import NdpSim.Timing.L2Replies
import NdpSim.Timing.Labels
import NdpSim.Timing.LatencyQueues
import NdpSim.Timing.LaunchTables
import NdpSim.Timing.Pending
import NdpSim.Timing.Registration
import NdpSim.Timing.RequestQueue
import NdpSim.Timing.Scoreboard
import NdpSim.Timing.SectionCounts
import NdpSim.Timing.SubCore
import NdpSim.Timing.Tlb
import NdpSim.Timing.WorkPartition
