import RustClash.App.Expiry
import RustClash.App.HealthProbe
import RustClash.App.HealthRuns
import RustClash.App.ModesInvariant
import RustClash.App.Selection
import RustClash.App.SwitchingInvariant
import RustClash.Config.BlockYamlRead
import RustClash.Config.CatalogSlices
import RustClash.Config.Decoded
import RustClash.Config.Encoded
import RustClash.Config.Percent
import RustClash.Config.Ports
import RustClash.Config.ProfileText
import RustClash.Config.SsLinks
import RustClash.Config.TopLevel
import RustClash.Config.YamlLines
import RustClash.Core.AddressSearch
import RustClash.Core.DnsNames
import RustClash.Core.DnsRead
import RustClash.Core.Encrypted
import RustClash.Core.FakeIpInvariant
import RustClash.Core.Doh
import RustClash.Core.Happy
import RustClash.Core.RelayInvariant
import RustClash.Core.ResolverCancel
import RustClash.Core.ResolverShared
import RustClash.Core.RuleFile
import RustClash.Core.RuleMatch
import RustClash.Core.ServerName
import RustClash.Core.Targets
import RustClash.Core.TtlLruRuns
import RustClash.Core.UdpLookup
import RustClash.Core.Verdicts
import RustClash.Inbound.Listening
import RustClash.Inbound.RequestText
import RustClash.Inbound.TunnelRun
import RustClash.Proxynet.Downlink
import RustClash.Proxynet.Handover
import RustClash.Proxynet.HttpObfsWrite
import RustClash.Proxynet.Layers
import RustClash.Proxynet.ObfsReturns
import RustClash.Proxynet.Reality.Certificate
import RustClash.Proxynet.Reality.HandshakeCompletes
import RustClash.Proxynet.Reality.Hello
import RustClash.Proxynet.Reality.HelloFormat
import RustClash.Proxynet.Reality.PeerFaults
import RustClash.Proxynet.Reality.ServerMessages
import RustClash.Proxynet.RealityEnds
import RustClash.Proxynet.RecordWrite
import RustClash.Proxynet.RequestFormats
import RustClash.Proxynet.ServerRecords
import RustClash.Proxynet.SocksAuth
import RustClash.Proxynet.SsEnds
import RustClash.Proxynet.SsWrite
import RustClash.Proxynet.TlsObfs
import RustClash.Proxynet.TlsObfsWire
import RustClash.Proxynet.VisionDetach
import RustClash.Proxynet.VisionRead
import RustClash.Proxynet.VisionWrite
import RustClash.Proxynet.Vmess.BodyRoundTrip
import RustClash.Proxynet.Vmess.Nonces
import RustClash.Proxynet.Vmess.Request
import RustClash.Proxynet.Vmess.Response
import RustClash.Proxynet.WsFaults
import RustClash.Proxynet.WsRead
import RustClash.Sysproxy.Desktops
import RustClash.Sysproxy.WindowsInvariant
import RustClash.Tun.Binding
import RustClash.Tun.DnsTcp
import RustClash.Tun.Flows
import RustClash.Tun.GenerationInvariant
import RustClash.Tun.HostRoute
import RustClash.Tun.Idle
import RustClash.Tun.PortSearch
import RustClash.Tun.RoundTrip
import RustClash.Tun.RoutesRecovery
import RustClash.Tun.Routing
import RustClash.Tun.TcpNatInvariant
