import OpenNfm.Program.Prog
import OpenNfm.Program.Code
import OpenNfm.Program.Spec
import OpenNfm.Program.Ownership
import OpenNfm.Program.Invariant
import OpenNfm.Program.PairLog
import OpenNfm.Program.Oracle
import OpenNfm.Program.Meter
import OpenNfm.Program.PlacedItems
import OpenNfm.Program.Agreement
import OpenNfm.Program.EveryAnswer
import OpenNfm.Program.Layered
import OpenNfm.Program.Alike
import OpenNfm.Core.Cmn
import OpenNfm.Mtd.Interface
import OpenNfm.Mtd.Rules
import OpenNfm.Mtd.Faulty
import OpenNfm.Mtd.Nand
import OpenNfm.Mtd.Api
import OpenNfm.Mtd.CheckBlock
import OpenNfm.Mtd.RowAddress
import OpenNfm.Mtd.Simulated
import OpenNfm.Mtd.Refinement
import OpenNfm.Mtd.Worn
import OpenNfm.Mtd.PolledDice
import OpenNfm.Mtd.Answers
import OpenNfm.Mtd.Unreliable
import OpenNfm.Mtd.ReadRetry
import OpenNfm.Ubi.Tables
import OpenNfm.Ubi.TableLog
import OpenNfm.Ubi.Anchor
import OpenNfm.Ubi.AnchorRing
import OpenNfm.Ubi.AnchorScan
import OpenNfm.Ubi.AnchorRecovery
import OpenNfm.Ubi.AnchorBadBlocks
import OpenNfm.Ubi.AnchorPowerLoss
import OpenNfm.Ubi.BadBlockTable
import OpenNfm.Ubi.AnchorExhausted
import OpenNfm.Ubi.AnchorTermination
import OpenNfm.Ubi.AnchorReturns
import OpenNfm.Ubi.FreeTable
import OpenNfm.Ubi.FreeList
import OpenNfm.Ubi.FreeBlockGet
import OpenNfm.Ubi.FreeSorted
import OpenNfm.Ubi.Area
import OpenNfm.Ubi.Index
import OpenNfm.Ubi.Api
import OpenNfm.Ubi.Mapping
import OpenNfm.Ubi.IndexLog
import OpenNfm.Ubi.AreaCache
import OpenNfm.Ubi.Commit
import OpenNfm.Ubi.FreeParked
import OpenNfm.Ubi.CommitRetry
import OpenNfm.Ubi.Operations
import OpenNfm.Ubi.Mount
import OpenNfm.Ubi.Format
import OpenNfm.Ubi.FactoryBlocks
import OpenNfm.Ubi.FactoryFormat
import OpenNfm.Ubi.FactoryCoverage
import OpenNfm.Ubi.FactoryDetect
import OpenNfm.Ubi.Refinement
import OpenNfm.Ubi.WearLevelling
import OpenNfm.Ubi.Runs
import OpenNfm.Ubi.CrashConsistency
import OpenNfm.Ubi.LevelledImage
import OpenNfm.Onfm.Interface
import OpenNfm.Buf.Buffers
import OpenNfm.Onfm.Api
import OpenNfm.Buf.WriteBuffer
import OpenNfm.Onfm.Sectors
import OpenNfm.Onfm.Refinement
import OpenNfm.Ftl.Interface
import OpenNfm.Ftl.Logs
import OpenNfm.Ftl.Pmt
import OpenNfm.Ftl.CommitFrame
import OpenNfm.Ftl.Data
import OpenNfm.Ftl.Rules
import OpenNfm.Ftl.PmtFrame
import OpenNfm.Ftl.TableLogs
import OpenNfm.Ftl.RootLog
import OpenNfm.Ftl.LogRecovery
import OpenNfm.Ftl.LogMount
import OpenNfm.Ftl.LogFormat
import OpenNfm.Ftl.LogRuns
import OpenNfm.Ftl.JournalPages
import OpenNfm.Ftl.JournalReplay
import OpenNfm.Ftl.JournalSearch
import OpenNfm.Ftl.CommitFailures
import OpenNfm.Ftl.HiddenFailures
import OpenNfm.Ftl.NodeTable
import OpenNfm.Ftl.NodeReclaim
import OpenNfm.Ftl.NodeCommit
import OpenNfm.Ftl.NodeCalls
import OpenNfm.Ftl.NodeMount
import OpenNfm.Ftl.NodeRuns
import OpenNfm.Ftl.NodeCounts
import OpenNfm.Ftl.ReclaimCalls
import OpenNfm.Ftl.NodeCoherence
import OpenNfm.Ftl.ReclaimSearch
import OpenNfm.Ftl.HotData
import OpenNfm.Ubi.TableLookup
import OpenNfm.Ubi.FreeOrder
import OpenNfm.Onfm.FailingStore
import OpenNfm.Onfm.MergedPage
import OpenNfm.Onfm.FailedWrites
import OpenNfm.Ubi.HeldPages
import OpenNfm.Ubi.CountMeter
import OpenNfm.Ubi.CountBound
import OpenNfm.Ftl.WaitingWrites
import OpenNfm.Onfm.Stack
import OpenNfm.Onfm.FailedDice
import OpenNfm.Onfm.WatchedPool
import OpenNfm.Onfm.BufferOwnership
import OpenNfm.Program.PageLog
import OpenNfm.Program.Simulation
import OpenNfm.Ftl.DataCalls
import OpenNfm.Ftl.DataFrame
import OpenNfm.Ftl.DataPages
import OpenNfm.Ftl.DataWrites
import OpenNfm.Ftl.DataSearch
import OpenNfm.Ftl.DataCopies
import OpenNfm.Ftl.DataSwitch
import OpenNfm.Ftl.DataReclaims
import OpenNfm.Ftl.DataFormat
import OpenNfm.Ftl.DataRuns
import OpenNfm.Ftl.DataCoherence
import OpenNfm.Onfm.FtlSectors
import OpenNfm.Onfm.StoreOnUbi
import OpenNfm.Onfm.FtlOnUbi
import OpenNfm.Onfm.SectorsOnUbi
import OpenNfm.Program.RingQueue
import OpenNfm.Usb.Interface
import OpenNfm.Usb.MassStorage
import OpenNfm.Usb.Device
import OpenNfm.Usb.Tasks
import OpenNfm.Usb.Phases
import OpenNfm.Usb.Handlers
import OpenNfm.Usb.Transfers
import OpenNfm.Usb.Runs
import OpenNfm.Usb.Correctness
import OpenNfm.Usb.Interrupts
import OpenNfm.Usb.Layers
