import StackedDram.Library.Machine
import StackedDram.Library.Pairing
import StackedDram.Library.BitFields
import StackedDram.Library.BitCount
import StackedDram.Remapping.Manager
import StackedDram.Remapping.Redirection
import StackedDram.Remapping.Mechanism
import StackedDram.Remapping.Pass
import StackedDram.Remapping.Matching
import StackedDram.Remapping.ThermalSafety
import StackedDram.Library.MisraGries
import StackedDram.Remapping.HotRows
import StackedDram.Remapping.Selection
import StackedDram.Remapping.Idempotence
import StackedDram.Addressing
import StackedDram.Translation
import StackedDram.Cache.PageInfo
import StackedDram.Library.Recency
import StackedDram.Cache.BlockHits
import StackedDram.Cache.Replacement
import StackedDram.Controller
import StackedDram.Effects
import StackedDram.Runs
import StackedDram.Library.FirstTouch
import StackedDram.DisabledBanks
import StackedDram.Residency
import StackedDram.Writes
import StackedDram.Library.Ledger
import StackedDram.WriteBacks
import StackedDram.Remapping.Vaults
import StackedDram.Tables
import StackedDram.Decoding
import StackedDram.PageCache
import StackedDram.OffChip
import StackedDram.Ramulator.Hbm
import StackedDram.Ramulator.RamDRAM
import StackedDram.Library.PackedFields
import StackedDram.Ramulator.AddressMap
import StackedDram.HotSpot
import StackedDram.Decoders
import StackedDram.Library.Retry
import StackedDram.Ramulator.DramSim
import StackedDram.Ramulator.LatencyClock
import StackedDram.Ramulator.Refresh
import StackedDram.Ramulator.Scheduling
import StackedDram.Ramulator.BankCounters
import StackedDram.Library.OpenPage
import StackedDram.VaultPerfModel
import StackedDram.RowBuffers
import StackedDram.Counters
import StackedDram.RegionOfInterest
import StackedDram.LoadedBlocks
import StackedDram.Library.RunningTotals
import StackedDram.RunTotals
import StackedDram.Library.FirstMax
import StackedDram.SegmentSwap
import StackedDram.Library.Involution
import StackedDram.Balancing.RemapTables
import StackedDram.Balancing.Targets
import StackedDram.SetSplit
import StackedDram.Alloy
import StackedDram.StackedLlc
import StackedDram.Library.SaturatingWalk
import StackedDram.Throttling
import StackedDram.Library.Metering
import StackedDram.Power.Interval
import StackedDram.Power.Rates
import StackedDram.Power.Vaults
import StackedDram.Library.OpenRows
import StackedDram.Library.Spacing
import StackedDram.Library.Traces
import StackedDram.Ramulator.Commands
import StackedDram.Ramulator.Completions
import StackedDram.Ramulator.OpenRows
import StackedDram.Ramulator.QueueLengths
import StackedDram.Ramulator.RowHitFirst
import StackedDram.Ramulator.RowTable
import StackedDram.Ramulator.Serving
import StackedDram.Ramulator.TimingSafety
import StackedDram.Library.BusyPeriod
import StackedDram.Library.Components
import StackedDram.Ramulator.Memory
import StackedDram.Ramulator.MemoryCoherence
import StackedDram.Library.RowWork
import StackedDram.Ramulator.CommandsLeft
import StackedDram.Ramulator.Draining
import StackedDram.Ramulator.Simulator
import StackedDram.Ramulator.BankRefreshes
import StackedDram.Ramulator.SimulatorRuns
