import OpenWrtCompile.Base.Bytes
import OpenWrtCompile.Base.Search
import OpenWrtCompile.Server.Buffer
import OpenWrtCompile.Server.Cipher
import OpenWrtCompile.Server.ClientList
import OpenWrtCompile.Server.Request
import OpenWrtCompile.Server.Conn
import OpenWrtCompile.Server.Reassembly
import OpenWrtCompile.Base.Run
import OpenWrtCompile.Server.EarlyPayload
import OpenWrtCompile.Obfs.HostBuffers
import OpenWrtCompile.Obfs.Replay
import OpenWrtCompile.Obfs.ServerNameChoice
import OpenWrtCompile.Base.Lru
import OpenWrtCompile.Udp.Header
import OpenWrtCompile.Udp.Relay
import OpenWrtCompile.Udp.Destination
import OpenWrtCompile.Ddns.Shell
import OpenWrtCompile.Ddns.Zone
import OpenWrtCompile.Udp.ReplyLabel
import OpenWrtCompile.Ddns.Host
import OpenWrtCompile.Ddns.Scripts
import OpenWrtCompile.Subscribe.Link
import OpenWrtCompile.Subscribe.Import
import OpenWrtCompile.Base.Returns
import OpenWrtCompile.Subscribe.Wellformed
import OpenWrtCompile.Subscribe.Safety
import OpenWrtCompile.Subscribe.Nodes
import OpenWrtCompile.Subscribe.Isolation
import OpenWrtCompile.Subscribe.Merge
import OpenWrtCompile.Subscribe.FailedFetch
import OpenWrtCompile.Subscribe.Counts
import OpenWrtCompile.Subscribe.Idempotent
import OpenWrtCompile.Base.CString
import OpenWrtCompile.Base.Stream
import OpenWrtCompile.Http.Header
import OpenWrtCompile.Http.Simple
import OpenWrtCompile.Http.Requests
import OpenWrtCompile.Http.Transparency
import OpenWrtCompile.Base.FirstFree
import OpenWrtCompile.Overwall.Ports
import OpenWrtCompile.Udp.Agreement
import OpenWrtCompile.Base.Framing
import OpenWrtCompile.Protocol.Checksum
import OpenWrtCompile.Protocol.CrcResidue
import OpenWrtCompile.Protocol.AdlerBounds
import OpenWrtCompile.Protocol.VerifySimple
import OpenWrtCompile.Protocol.AuthSha1
import OpenWrtCompile.Obfs.Tls12Client
import OpenWrtCompile.Obfs.Tls12Data
import OpenWrtCompile.Obfs.Tls12Handshake
import OpenWrtCompile.Server.Layers
import OpenWrtCompile.Server.Plugins
import OpenWrtCompile.Server.Compatible
import OpenWrtCompile.Server.ChunkAuth
import OpenWrtCompile.Base.Keystream
import OpenWrtCompile.Server.Libsodium
import OpenWrtCompile.Server.BlockCipher
import OpenWrtCompile.Base.Chains
import OpenWrtCompile.Overwall.Rules
import OpenWrtCompile.Overwall.Switch
import OpenWrtCompile.Overwall.AccessControl
import OpenWrtCompile.Udp.ConnCache
import OpenWrtCompile.Udp.QueryContext
import OpenWrtCompile.Base.LruMap
import OpenWrtCompile.Server.Cache
import OpenWrtCompile.Server.BlockList
import OpenWrtCompile.Server.Resolv
import OpenWrtCompile.Base.Numbered
import OpenWrtCompile.Protocol.AuthAes128
import OpenWrtCompile.Protocol.Sequence
import OpenWrtCompile.Base.Base64
import OpenWrtCompile.Server.Base64Codec
import OpenWrtCompile.Base.Text
import OpenWrtCompile.Subscribe.Browser
import OpenWrtCompile.Subscribe.Codec
import OpenWrtCompile.Subscribe.UrlCoding
import OpenWrtCompile.Ddns.Signing
import OpenWrtCompile.Subscribe.Export
import OpenWrtCompile.Subscribe.Reading
import OpenWrtCompile.Subscribe.RoundTrip.Trojan
import OpenWrtCompile.Subscribe.RoundTrip.Ssr
import OpenWrtCompile.Subscribe.RoundTrip.Vmess
import OpenWrtCompile.Subscribe.Authority
import OpenWrtCompile.Base.MergeSort
import OpenWrtCompile.Base.NodeChain
import OpenWrtCompile.Base.Selection
import OpenWrtCompile.Server.ListSort
import OpenWrtCompile.Server.TableCipher
import OpenWrtCompile.Server.TlsHeader
import OpenWrtCompile.Base.Logged
import OpenWrtCompile.Server.HeaderLength
import OpenWrtCompile.Server.Hostname
import OpenWrtCompile.Protocol.FrameRoom
import OpenWrtCompile.Protocol.HeadSplit
import OpenWrtCompile.Obfs.Tls12Access
import OpenWrtCompile.Server.ObfsPlugins
import OpenWrtCompile.Server.FirstSegment
import OpenWrtCompile.Http.HostCheck
import OpenWrtCompile.Overwall.Update
import OpenWrtCompile.Base.RuleTable
import OpenWrtCompile.Overwall.Include
import OpenWrtCompile.Overwall.Reload
import OpenWrtCompile.Base.DotPattern
import OpenWrtCompile.Base.LineEdits
import OpenWrtCompile.Overwall.DnsRules
import OpenWrtCompile.Overwall.ListPrecedence
import OpenWrtCompile.Overwall.Monitor
import OpenWrtCompile.Overwall.Upstreams
import OpenWrtCompile.Xlnetacc.Machine
import OpenWrtCompile.Xlnetacc.Safety
import OpenWrtCompile.Adblock.BlackList
import OpenWrtCompile.Base.Gsub
import OpenWrtCompile.Base.Json
import OpenWrtCompile.Overwall.XrayConfig
import OpenWrtCompile.Overwall.XrayEdits
import OpenWrtCompile.Overwall.XrayStrings
import OpenWrtCompile.Overwall.ConfigFiles
import OpenWrtCompile.Overwall.ConfigMembers
import OpenWrtCompile.Overwall.ConfigPlugin
import OpenWrtCompile.Base.Following
import OpenWrtCompile.Overwall.ConfigMembers
import OpenWrtCompile.Overwall.ConfigPlugin
import OpenWrtCompile.Xlnetacc.DeviceSign
import OpenWrtCompile.Subscribe.RoundTrip.Ss
import OpenWrtCompile.Subscribe.RoundTrip.Vless
import OpenWrtCompile.Subscribe.RoundTrip.Links
import OpenWrtCompile.Base.Pump
import OpenWrtCompile.Server.Relay
import OpenWrtCompile.Server.RelayRuns
import OpenWrtCompile.Base.Decoder
import OpenWrtCompile.Server.Tunnel
import OpenWrtCompile.Server.TunnelPlugins
import OpenWrtCompile.Server.TunnelRuns
import OpenWrtCompile.Server.TunnelBack
import OpenWrtCompile.Base.Block
import OpenWrtCompile.Server.JsonParser
import OpenWrtCompile.Server.JsonPasses
import OpenWrtCompile.Server.JsonSound
import OpenWrtCompile.Server.JsonBlocks
import OpenWrtCompile.Server.JsonRuns
import OpenWrtCompile.Server.JsonTwoPasses
