import Mqvpn.Android.PathManager
import Mqvpn.Android.Settled
import Mqvpn.Client.Backpressure
import Mqvpn.Client.Failover
import Mqvpn.Client.Frame
import Mqvpn.Client.Interest
import Mqvpn.Client.Mtu
import Mqvpn.Client.Paths
import Mqvpn.Client.Slots
import Mqvpn.Client.Table
import Mqvpn.Client.Tags
import Mqvpn.Client.Transitions
import Mqvpn.Client.Weights
import Mqvpn.ConfigFile.Json
import Mqvpn.Hybrid.Downlink
import Mqvpn.Hybrid.Egress
import Mqvpn.Hybrid.EgressBooks
import Mqvpn.Hybrid.EgressFlow
import Mqvpn.Hybrid.EgressRelay
import Mqvpn.Hybrid.Flow
import Mqvpn.Hybrid.Lane
import Mqvpn.Hybrid.LaneEvents
import Mqvpn.Hybrid.LaneTable
import Mqvpn.Hybrid.LaneTeardown
import Mqvpn.Hybrid.OneLane
import Mqvpn.Hybrid.Requests
import Mqvpn.Hybrid.Routing
import Mqvpn.Hybrid.Uplink
import Mqvpn.Lib.Chains
import Mqvpn.Lib.Circular
import Mqvpn.Lib.FirstMatch
import Mqvpn.Lib.Heap
import Mqvpn.Lib.Prog
import Mqvpn.Lib.Runs
import Mqvpn.Lib.Segments
import Mqvpn.Lib.Slots
import Mqvpn.Lib.Sweep
import Mqvpn.Lib.Text
import Mqvpn.Path.Cleanup
import Mqvpn.Path.Lifecycle
import Mqvpn.Path.Retries
import Mqvpn.Path.Rotation
import Mqvpn.Platform.Balance
import Mqvpn.Platform.DarwinDns
import Mqvpn.Platform.DnsAuthority
import Mqvpn.Platform.DnsBackup
import Mqvpn.Platform.DnsLock
import Mqvpn.Platform.KillSwitch
import Mqvpn.Platform.LinuxPaths
import Mqvpn.Platform.Model
import Mqvpn.Platform.PathAgreement
import Mqvpn.Platform.PathBooks
import Mqvpn.Platform.PathOwners
import Mqvpn.Platform.PathStart
import Mqvpn.Platform.PathSteps
import Mqvpn.Platform.ResolvConf
import Mqvpn.Platform.Routes
import Mqvpn.Reorder.Budget
import Mqvpn.Reorder.Changes
import Mqvpn.Reorder.Dispatch
import Mqvpn.Reorder.FlowInv
import Mqvpn.Reorder.Grace
import Mqvpn.Reorder.Lifetime
import Mqvpn.Reorder.Link
import Mqvpn.Reorder.Moves
import Mqvpn.Reorder.Progress
import Mqvpn.Reorder.Resolution
import Mqvpn.Reorder.Restart
import Mqvpn.Reorder.Rx
import Mqvpn.Reorder.RxInv
import Mqvpn.Reorder.RxTable
import Mqvpn.Reorder.Safety
import Mqvpn.Reorder.Tx
import Mqvpn.Reorder.TxInv
import Mqvpn.Reorder.TxTable
import Mqvpn.Reorder.Wrap
import Mqvpn.Server.Accounting
import Mqvpn.Server.AddrPool
import Mqvpn.Server.Datagrams
import Mqvpn.Server.Frame
import Mqvpn.Server.Identity
import Mqvpn.Server.Model
import Mqvpn.Server.Pause
import Mqvpn.Server.Sessions
import Mqvpn.Server.Subnet
import Mqvpn.ConfigFile.Model
import Mqvpn.ConfigFile.Loaders
import Mqvpn.Hybrid.EgressInterest
import Mqvpn.Hybrid.Window
import Mqvpn.Server.Allocator
import Mqvpn.Lib.OnesComplement
import Mqvpn.Server.Forwarding
import Mqvpn.Lib.Framing
import Mqvpn.Server.Capsules
import Mqvpn.Hybrid.Access
import Mqvpn.Server.UserTable
import Mqvpn.Server.FixedIp
import Mqvpn.Platform.DnsRoundTrip
import Mqvpn.Platform.DnsPolicy
import Mqvpn.ConfigFile.IniText
import Mqvpn.ConfigFile.JsonText
import Mqvpn.ConfigFile.Agreement
import Mqvpn.Server.Gateway
import Mqvpn.Lib.Buffer
import Mqvpn.Server.Icmp
import Mqvpn.ConfigFile.Lookup
import Mqvpn.ConfigFile.Builder
import Mqvpn.ConfigFile.Users
import Mqvpn.Control.Request
import Mqvpn.Control.AddUser
import Mqvpn.Lib.JsonCompact
import Mqvpn.Control.Names
import Mqvpn.Control.Responses
import Mqvpn.Reorder.Headers
import Mqvpn.Reorder.FlowSched
import Mqvpn.ConfigFile.RuleMatch
import Mqvpn.Path.Mirror
import Mqvpn.Lib.Limits
import Mqvpn.Server.PathMtu
import Mqvpn.ConfigFile.CommandLine
import Mqvpn.Platform.RouteMon
import Mqvpn.Lib.Loops
import Mqvpn.Hybrid.LaneSweep
import Mqvpn.Hybrid.Aborts
import Mqvpn.Control.Display
import Mqvpn.Control.DisplayStatus
import Mqvpn.Hybrid.ClientEnd
import Mqvpn.Hybrid.ServerEnd
import Mqvpn.Hybrid.Tunnelled
import Mqvpn.Platform.PfAnchor
import Mqvpn.Platform.Wfp
import Mqvpn.Platform.KillSwitches
import Mqvpn.Server.Isolation
import Mqvpn.Hybrid.EgressSockets
import Mqvpn.Platform.EgressFds
import Mqvpn.Hybrid.CatchUp
import Mqvpn.Lib.Records
import Mqvpn.Platform.Netlink
