import OxidizedSystemd.Jobs.Scheduler
import OxidizedSystemd.Jobs.Waiters
import OxidizedSystemd.Jobs.Wraparound
import OxidizedSystemd.Dispatcher.Overlap
import OxidizedSystemd.Dispatcher.Deadlock
import OxidizedSystemd.Dispatcher.StopOrder
import OxidizedSystemd.Units.BreakCycles
import OxidizedSystemd.Units.ActivationSweep
import OxidizedSystemd.Units.StartChainUnreloaded
import OxidizedSystemd.Units.Locking
import OxidizedSystemd.Units.Remove
import OxidizedSystemd.Units.StopChainRuns
import OxidizedSystemd.Loading.InsertNew
import OxidizedSystemd.Loading.TwoSided
import OxidizedSystemd.Journal.Crash
import OxidizedSystemd.Journal.Follow
import OxidizedSystemd.Journal.Export
import OxidizedSystemd.Journal.CJournal
import OxidizedSystemd.Journal.Sequence
import OxidizedSystemd.Cgroups.DeviceProgram
import OxidizedSystemd.Cgroups.IpPolicy
import OxidizedSystemd.Calendar.NextElapse
import OxidizedSystemd.Loading.UnitNameUnescape
import OxidizedSystemd.Networkd.DhcpClient
import OxidizedSystemd.UnitParsing.Comments
import OxidizedSystemd.Vpick.CompareVersions
import OxidizedSystemd.Resolved.StripOpt
import OxidizedSystemd.Resolved.HandleQuery
import OxidizedSystemd.Repart.Plan
import OxidizedSystemd.Repart.UsableRange
import OxidizedSystemd.Repart.Gpt
import OxidizedSystemd.Repart.Repeated
import OxidizedSystemd.Udevd.EventQueue
import OxidizedSystemd.Udevd.SymlinkLock
import OxidizedSystemd.Udevd.DbRoundTrip
import OxidizedSystemd.Loading.SearchOrder
import OxidizedSystemd.Loading.DropIns
import OxidizedSystemd.Loading.MaskedDeps
import OxidizedSystemd.Udevd.SymlinkClaims
import OxidizedSystemd.Loading.Injection
import OxidizedSystemd.Loading.Expansion
import OxidizedSystemd.Journal.TrustedFields
import OxidizedSystemd.Timesyncd.Nts
import OxidizedSystemd.Notifications.FdStore
import OxidizedSystemd.SocketActivation.AcceptYes
import OxidizedSystemd.Timers.Scheduler
import OxidizedSystemd.Udevd.GlobMatch
import OxidizedSystemd.Udevd.RuleParse
import OxidizedSystemd.Udevd.Rules.ReadOnly
import OxidizedSystemd.Loading.TemplateNames
import OxidizedSystemd.Loading.UnresolvedSpecifiers
import OxidizedSystemd.UnitParsing.CommandLine
import OxidizedSystemd.UnitParsing.EntryOrder
import OxidizedSystemd.Udevd.Rules.Final
import OxidizedSystemd.Udevd.Rules.Files
import OxidizedSystemd.Udevd.TagIndex
import OxidizedSystemd.Hwdb.Safety
import OxidizedSystemd.Units.RemovedIds
import OxidizedSystemd.Units.StoppedCheck
import OxidizedSystemd.Units.StartSubgraph
import OxidizedSystemd.Loading.Prune
import OxidizedSystemd.Cgroups.DevicePolicy
import OxidizedSystemd.Calendar.CivilExact
import OxidizedSystemd.Timers.Timespan
import OxidizedSystemd.Calendar.Overflow
import OxidizedSystemd.Calendar.Normalized
import OxidizedSystemd.Resolved.NameSafety
import OxidizedSystemd.Resolved.SkipName
import OxidizedSystemd.Resolved.EncodeName
import OxidizedSystemd.Loading.MangleName
import OxidizedSystemd.Repart.GrowSafety
import OxidizedSystemd.Repart.AutoSize
import OxidizedSystemd.Vpick.MakeChoice
import OxidizedSystemd.Units.StartLimit
import OxidizedSystemd.Units.SliceConcurrency
import OxidizedSystemd.Journal.StdoutStream
import OxidizedSystemd.Resolved.TypeBitMaps
import OxidizedSystemd.Resolved.Routing
import OxidizedSystemd.Resolved.Nsec
import OxidizedSystemd.Networkd.DhcpWire
import OxidizedSystemd.Journal.CredLineReader
import OxidizedSystemd.Journal.RateLimit
import OxidizedSystemd.Timesyncd.NtsSafety
import OxidizedSystemd.Resolved.AppendOpt
import OxidizedSystemd.Services.RestartPolicy
import OxidizedSystemd.Timers.OneShot
