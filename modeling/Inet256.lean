import Inet256.Foundation.Bytes
import Inet256.Foundation.Runtime
import Inet256.Foundation.Runs
import Inet256.Crypto.Primitives
import Inet256.Crypto.SignProduct
import Inet256.Pki.Codec
import Inet256.Pki.Signature
import Inet256.Beaconnet.Message
import Inet256.Beaconnet.Router
import Inet256.Beaconnet.Handlers
import Inet256.Beaconnet.Table
import Inet256.Foundation.Flood
import Inet256.Beaconnet.Network
import Inet256.Beaconnet.LoopFree
import Inet256.Beaconnet.Storm
import Inet256.Beaconnet.DataPlane
import Inet256.Foundation.Bits
import Inet256.Foundation.Futures
import Inet256.Internal.Bitstr
import Inet256.Routers.Network
import Inet256.Foundation.Chunks
import Inet256.Ipc.Message
import Inet256.Ipc.Stream
import Inet256.Ipc.Ask
import Inet256.Ipc.Session
import Inet256.Internal.Rcsrv
import Inet256.Pki.Addr
import Inet256.Ipv6.AddrMap
import Inet256.Ipv6.Portal
import Inet256.Foundation.Json
import Inet256.Dns256.Message
import Inet256.Dns256.Resolver
import Inet256.Discovery.Announce
import Inet256.Discovery.Central
import Inet256.Discovery.CentralLookup
import Inet256.Discovery.Lan
import Inet256.Foundation.Registry
import Inet256.Service.Nodes
import Inet256.Service.Http
import Inet256.Discovery.LanPeers
import Inet256.Dns256.Client
import Inet256.Dns256.Filters
import Inet256.Dns256.Replies
import Inet256.Ipv6.Outbound
import Inet256.Mesh.LinkMonitor
import Inet256.Mesh.Multihoming
import Inet256.Mesh.TopSwarm
import Inet256.Pki.Canonical
import Inet256.Routers.FindAddr
import Inet256.Beaconnet.Expiry
import Inet256.Crypto.ProductScheme
import Inet256.Ipc.Answers
import Inet256.Ipc.Limits
import Inet256.Ipv6.Nat
import Inet256.Mesh.Cleanup
import Inet256.Pki.AddrText
import Inet256.Pki.Parsing
import Inet256.Routers.Tell
import Inet256.Balancer.Stream
import Inet256.Dns256.Hops
import Inet256.Dns256.Layers
import Inet256.Dns256.Paths
import Inet256.Foundation.JsonText
import Inet256.Internal.Buffer
import Inet256.Internal.Strings
import Inet256.Ipc.Envelope
import Inet256.Ipv6.Compression
import Inet256.Ipv6.Mine
import Inet256.Ipv6.OutboundLoop
import Inet256.Service.PacketConn
import Inet256.Balancer.Fair
import Inet256.Balancer.Stdio
import Inet256.Balancer.StdioOutput
import Inet256.Beaconnet.Delivery
import Inet256.Beaconnet.Flooding
import Inet256.Discovery.CentralSystem
import Inet256.Dns256.Resolutions
import Inet256.Foundation.Fifo
import Inet256.Ipc.DataPath
import Inet256.Ipc.KeepAlive
import Inet256.Ipv6.Overlay
import Inet256.Mesh.Traffic
import Inet256.Routers.Lookups
import Inet256.Service.Daemon
import Inet256.Service.Messages
import Inet256.Service.Remote
