import KiloProxy.Run.System
import KiloProxy.Text.Kotlin
import KiloProxy.Cidr.Word
import KiloProxy.Util.Routes
import KiloProxy.Util.CarveCoverage
import KiloProxy.Service.OwnTraffic
import KiloProxy.Service.DnsRoute
import KiloProxy.Text.Marked
import KiloProxy.Util.Countries
import KiloProxy.Util.ProxyProviders
import KiloProxy.Util.CountrySwitch
import KiloProxy.Util.CountryKept
import KiloProxy.Store.WholeFile
import KiloProxy.Text.UrlEncode
import KiloProxy.Util.Preferences
import KiloProxy.Service.SharedPrefs
import KiloProxy.Store.Entries
import KiloProxy.Util.Profile
import KiloProxy.Util.Migration
import KiloProxy.Vpn.State
import KiloProxy.Vpn.Handlers
import KiloProxy.Vpn.StartThread
import KiloProxy.Vpn.System
import KiloProxy.Vpn.CancelWins
import KiloProxy.Vpn.StaleStop
import KiloProxy.Vpn.UsageKept
import KiloProxy.Vpn.ProbeIsolation
import KiloProxy.Util.ProfileKeys
import KiloProxy.Util.StoredNames
import KiloProxy.Util.Registry
import KiloProxy.Util.DefaultChoice
import KiloProxy.Store.Cuts
import KiloProxy.Util.RegistryCrash
import KiloProxy.Net.Chunks
import KiloProxy.Vpn.SocksTester
import KiloProxy.Vpn.ProbeTranscript
import KiloProxy.Vpn.PublishedState
import KiloProxy.Vpn.UsageExact
import KiloProxy.Vpn.ResolvedServer
import KiloProxy.Vpn.EngineHandles
import KiloProxy.Util.HostPriority
import KiloProxy.Ui.ProxyString
import KiloProxy.Ui.VpnViewModel
import KiloProxy.Ui.FloatingControl
import KiloProxy.Ui.Rebinding
import KiloProxy.Ui.StatesAgree
import KiloProxy.Util.UpdateChecker
import KiloProxy.Util.UpdateIntegrity
import KiloProxy.Util.NamesPersist
import KiloProxy.Util.OldKeys
import KiloProxy.Ui.ProfileCopies
import KiloProxy.Ui.UndoDelete
import KiloProxy.Text.Starts
import KiloProxy.Util.UsernameCodec
import KiloProxy.Ui.ProxySheet
import KiloProxy.Run.Rescheduled
import KiloProxy.Run.TwoRuns
import KiloProxy.Vpn.AcceleratorOff
import KiloProxy.Vpn.Options
import KiloProxy.Vpn.Exits
import KiloProxy.Vpn.CheckLoop
import KiloProxy.Vpn.FailureCount
import KiloProxy.Vpn.Notification
import KiloProxy.Cidr.Partition
import KiloProxy.Util.CarvePartition
import KiloProxy.Service.BypassRoutes
import KiloProxy.Net.Prefixed
import KiloProxy.Vpn.AuthRequest
import KiloProxy.Text.Yaml
import KiloProxy.Util.HevConf
import KiloProxy.Ui.SheetForm
import KiloProxy.Ui.StickTime
import KiloProxy.Ui.SaveGate
import KiloProxy.Ui.UsageKeys
import KiloProxy.Store.Recent
import KiloProxy.Util.RecentCountries
import KiloProxy.Ui.CountryMenus
import KiloProxy.Text.Lines
import KiloProxy.Util.ReleaseNotes
import KiloProxy.Run.Search
import KiloProxy.Ui.FreshNames
import KiloProxy.Store.Slot
import KiloProxy.Util.DnsCache
import KiloProxy.Text.Listed
import KiloProxy.Ui.SplitTunneling
import KiloProxy.Store.WeakHeap
import KiloProxy.Util.ProfileFactory
import KiloProxy.Net.Literal
import KiloProxy.Service.NumericAddress
import KiloProxy.Engine.RelayRuns
import KiloProxy.Engine.PacketBuffer
import KiloProxy.Engine.PacketStream
import KiloProxy.Engine.SocksHandshake
import KiloProxy.Engine.UdpGwRuns
import KiloProxy.Engine.DnsReplies
import KiloProxy.Engine.SocksSession
import KiloProxy.Engine.FairQueueRuns
import KiloProxy.Engine.BavlRuns
import KiloProxy.Engine.DeviceRuns
import KiloProxy.Engine.DnsNameRuns
