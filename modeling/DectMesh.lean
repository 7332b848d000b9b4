import DectMesh.Lib.Run
import DectMesh.Lib.History
import DectMesh.Lib.RingBuffer
import DectMesh.Lib.Wire
import DectMesh.Lib.Chunks
import DectMesh.Lib.Pieces
import DectMesh.Lib.Framing
import DectMesh.Lib.Distinct
import DectMesh.Lib.Handles
import DectMesh.Lib.Mailbox
import DectMesh.Lib.LastLines
import DectMesh.Lib.LossyChannel
import DectMesh.Lib.Unwinding
import DectMesh.Lib.SiblingList
import DectMesh.Lib.Paging
import DectMesh.Lib.Hex
import DectMesh.Lib.Printing
import DectMesh.Lib.Sampling
import DectMesh.Aether.Conversation
import DectMesh.Aether.Namespace
import DectMesh.Aether.NodeTree
import DectMesh.Aether.ReadDir
import DectMesh.Aether.Fids
import DectMesh.Aether.Lifetime
import DectMesh.Aether.Generation
import DectMesh.Aether.MeshClient
import DectMesh.Aether.NodePort
import DectMesh.Aether.Drain
import DectMesh.Aether.Probe
import DectMesh.Aether.Reply
import DectMesh.Aether.Push
import DectMesh.Aether.PushSuccess
import DectMesh.Mesh9p.Ring
import DectMesh.Aether.PushChunks
import DectMesh.Aether.PeerPort
import DectMesh.Aether.PushCtl
import DectMesh.Aether.DrainLoss
import DectMesh.Aether.PortSimulation
import DectMesh.Aether.NeighborhoodPort
import DectMesh.Aether.PortInvariant
import DectMesh.Aether.SlotAccounting
import DectMesh.Aether.Traffic
import DectMesh.Aether.FilteredMailbox
import DectMesh.Aether.ReliableClass
import DectMesh.Aether.EndOfFile
import DectMesh.Aether.HangupWakes
import DectMesh.Aether.AnnouncedReply
import DectMesh.Aether.MeshTraffic
import DectMesh.Aether.Counters
import DectMesh.Aether.DataReads
import DectMesh.Mesh9p.Routing
import DectMesh.Mesh9p.Fifo
import DectMesh.Mesh9p.Session
import DectMesh.Mesh9p.WiredDfu
import DectMesh.Relay.UartFraming
import DectMesh.Relay.UartClean
import DectMesh.Relay.UartDelivery
import DectMesh.Relay.UartSafe
import DectMesh.Relay.Link
import DectMesh.Relay.Firmware
import DectMesh.Aether.CtlGrammar
import DectMesh.Aether.PushFiles
import DectMesh.Relay.Threads
import DectMesh.Relay.Steps
import DectMesh.Relay.Monitor
import DectMesh.Relay.AutoConfirm
import DectMesh.Relay.Offsets
import DectMesh.Relay.StreamOwner
import DectMesh.Relay.ProxyFids
import DectMesh.Relay.PushProxy
import DectMesh.Relay.LinkLog
import DectMesh.Relay.RootFids
import DectMesh.Relay.HostDrop
import DectMesh.Relay.Tunnel
import DectMesh.Relay.TunnelSession
import DectMesh.Relay.TunnelPeer
import DectMesh.Relay.Pump
import DectMesh.Relay.TunnelConnect
import DectMesh.Relay.ConsoleBridge
import DectMesh.Relay.MeshPeer
import DectMesh.Identity.Cga
import DectMesh.Identity.Durable
import DectMesh.Identity.Proof
import DectMesh.Identity.Verify
import DectMesh.Identity.ProveFile
import DectMesh.Telemetry.Base64
import DectMesh.Telemetry.Stream
import DectMesh.Telemetry.Forwarder
import DectMesh.Telemetry.RoundTrip
import DectMesh.Telemetry.Packetizers
import DectMesh.Telemetry.DeviceTable
import DectMesh.Telemetry.ForwarderPort
import DectMesh.Chat.Retarget
import DectMesh.Aether.TextFiles
import DectMesh.Dev.Renderers
import DectMesh.Telemetry.Generators
import DectMesh.Telemetry.Metrics
import DectMesh.Dev.ChatLog
import DectMesh.Dev.PagedReads
import DectMesh.Dev.PartyLine
import DectMesh.Tools.FileStream
import DectMesh.Tools.MeshOta
import DectMesh.Tools.ReadDecode
import DectMesh.Tools.Bridge
import DectMesh.Tools.Dialing
