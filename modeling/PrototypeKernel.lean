import PrototypeKernel.Foundation.TransitionSystem
import PrototypeKernel.Foundation.Cyclic
import PrototypeKernel.Foundation.ReserveRing
import PrototypeKernel.Foundation.ReserveRingIndex
import PrototypeKernel.Foundation.ReserveRingData
import PrototypeKernel.Foundation.ReserveRingSolo
import PrototypeKernel.Foundation.ReserveRingFifo
import PrototypeKernel.AlfQueue.Helpers
import PrototypeKernel.AlfQueue.Queue
import PrototypeKernel.Foundation.CallSequence
import PrototypeKernel.AlfQueue.Discipline
import PrototypeKernel.AlfQueue.Fifo
import PrototypeKernel.AlfQueue.Concurrent
import PrototypeKernel.AlfQueue.Progress
import PrototypeKernel.AlfQueue.DeadQueue
import PrototypeKernel.AlfQueue.ConcurrencyTest
import PrototypeKernel.AlfQueue.ConcurrencyTestSafe
import PrototypeKernel.RingQueue.Queue
import PrototypeKernel.RingQueue.Discipline
import PrototypeKernel.RingQueue.Fifo
import PrototypeKernel.RingQueue.Concurrent
import PrototypeKernel.RingQueue.Progress
import PrototypeKernel.QMempool.Machine
import PrototypeKernel.QMempool.Lists
import PrototypeKernel.QMempool.Moves
import PrototypeKernel.QMempool.LocalQueue
import PrototypeKernel.QMempool.Progress
import PrototypeKernel.QMempool.SharedRoom
import PrototypeKernel.QMempool.Places
import PrototypeKernel.QMempool.Sequential
import PrototypeKernel.QMempool.Concurrent
import PrototypeKernel.Foundation.SlotRing
import PrototypeKernel.PtrRing.Ring
import PrototypeKernel.PtrRing.Fifo
import PrototypeKernel.PtrRing.Resize
import PrototypeKernel.PtrRing.Concurrent
import PrototypeKernel.PtrRing.Locked
import PrototypeKernel.QMempool.SlabRefill
import PrototypeKernel.TimeBench.Barrier
import PrototypeKernel.DdosBlacklist.Program
import PrototypeKernel.DdosBlacklist.Verdict
import PrototypeKernel.DdosBlacklist.Client
import PrototypeKernel.DdosBlacklist.History
import PrototypeKernel.DdosBlacklist.Race
import PrototypeKernel.BpfLoad.Loader
import PrototypeKernel.BpfLoad.Programs
import PrototypeKernel.BpfLoad.Marking
import PrototypeKernel.BpfLoad.Relocations
import PrototypeKernel.PtrRing.ResizeRace
import PrototypeKernel.PtrRing.ResizeSafe
import PrototypeKernel.Foundation.ListFamily
import PrototypeKernel.WfcQueue.Queue
import PrototypeKernel.WfcQueue.Spec
import PrototypeKernel.WfcQueue.Moves
import PrototypeKernel.WfcQueue.Links
import PrototypeKernel.WfcQueue.Invariant
import PrototypeKernel.WfcQueue.Fifo
import PrototypeKernel.Foundation.FairRounds
import PrototypeKernel.WfcQueue.Progress
import PrototypeKernel.QMempool.FailedCreate
import PrototypeKernel.DdosBlacklist.Faults
import PrototypeKernel.DdosBlacklist.DropCount
import PrototypeKernel.BpfLoad.MapsSection
import PrototypeKernel.BpfUtil.PossibleCpus
import PrototypeKernel.Foundation.KeyLoop
import PrototypeKernel.DdosBlacklist.Tool
import PrototypeKernel.DdosBlacklist.Listing
import PrototypeKernel.Foundation.Json
import PrototypeKernel.DdosBlacklist.ListingJson
import PrototypeKernel.DdosBlacklist.Options
import PrototypeKernel.DdosBlacklist.Cmdline
import PrototypeKernel.DdosBlacklist.LastDport
import PrototypeKernel.DdosBlacklist.FilterHistory
import PrototypeKernel.DdosBlacklist.Deployment
import PrototypeKernel.DdosBlacklist.DeploymentHistory
import PrototypeKernel.DdosBlacklist.Buffers
import PrototypeKernel.AlfQueue.CopyHelpers
import PrototypeKernel.AlfQueue.Masked
import PrototypeKernel.Foundation.BatchCopy
import PrototypeKernel.AlfQueue.BoundaryHelpers
import PrototypeKernel.RingQueue.InBounds
import PrototypeKernel.RingQueue.WaterMark
import PrototypeKernel.TimeBench.CalcStats
import PrototypeKernel.Foundation.QuotientDecimals
import PrototypeKernel.TimeBench.Precision
import PrototypeKernel.BpfLoad.FixupMaps
import PrototypeKernel.BpfLoad.ScanFaults
import PrototypeKernel.TimeBench.Loop
import PrototypeKernel.Foundation.CountedLoop
import PrototypeKernel.PageBench05.Experiment1
import PrototypeKernel.Foundation.WhileLoop
import PrototypeKernel.Foundation.WrappingCounter
import PrototypeKernel.PageBench02.Outstanding
import PrototypeKernel.PageBench05.Experiment3
import PrototypeKernel.PageBench05.Places
import PrototypeKernel.PageBench05.RefCounts
import PrototypeKernel.PageBench05.Conserved
import PrototypeKernel.Foundation.Buckets
import PrototypeKernel.SlabBulkTest03.ObjHash
import PrototypeKernel.SlabBulkTest03.Benchmark
import PrototypeKernel.SlabBulkTest03.BenchmarkSafe
import PrototypeKernel.Foundation.CBuffer
import PrototypeKernel.XdpBench02.Program
import PrototypeKernel.XdpBench02.Action
import PrototypeKernel.Foundation.GetoptOptional
import PrototypeKernel.TcBench01.Options
import PrototypeKernel.TcBench01.Buffers
import PrototypeKernel.TcBench01.Commands
import PrototypeKernel.Foundation.FilledRange
import PrototypeKernel.TimeBenchMemset.MemZero
import PrototypeKernel.Foundation.PyText
import PrototypeKernel.Configurator.Merge
import PrototypeKernel.Foundation.BinarySearch
import PrototypeKernel.Foundation.WrappedOrder
import PrototypeKernel.BpfLoad.Kallsyms
import PrototypeKernel.BpfLoad.KsymSearch
import PrototypeKernel.Foundation.Records
import PrototypeKernel.Foundation.Netlink
import PrototypeKernel.BpfLoad.SetLink
