import YkServer.Lib.Prog
import YkServer.Lib.Overwrite
import YkServer.Lib.Encoding
import YkServer.Lib.Word
import YkServer.Lib.Ragel
import YkServer.Core.ByteArray
import YkServer.Core.HttpParser
import YkServer.Theory.ByteArray.Walk
import YkServer.Theory.ByteArray.Invariant
import YkServer.Theory.ByteArray.Reachable
import YkServer.Theory.ByteArray.Flat
import YkServer.Theory.ByteArray.Strings
import YkServer.Theory.ByteArray.Positioned
import YkServer.Theory.ByteArray.File
import YkServer.Theory.IOManager.Interest
import YkServer.Theory.IOManager.Stale
import YkServer.Theory.IOManager.FdTable
import YkServer.Theory.Stream.FixSize
import YkServer.Theory.Rock.RoundTrip
import YkServer.Theory.WebSocket.Bounds
import YkServer.Theory.Http.Pipeline
import YkServer.Theory.Timer.Front
import YkServer.Theory.Hook.Wakeup
import YkServer.Theory.Scheduler.Stopping
import YkServer.Theory.Scheduler.Fibers
import YkServer.Theory.Scheduler.Tickle
import YkServer.Theory.AsyncSocketStream.Interference
import YkServer.Theory.Worker.Group
import YkServer.Theory.StreamLoops.Closed
import YkServer.Theory.Stream.Delivery
import YkServer.Theory.WebSocket.Sync
import YkServer.Theory.Config.Listeners
import YkServer.Theory.Config.Binding
import YkServer.Theory.StreamManager.Callbacks
import YkServer.Theory.Hook.Nonblock
import YkServer.Theory.Http.Pool
import YkServer.Theory.Http.Transfer
import YkServer.Theory.Module.Index
import YkServer.Theory.Chat.Login
import YkServer.Theory.ServiceDiscovery.Survival
import YkServer.Theory.ServiceDiscovery.Creation
import YkServer.Theory.Timer.Expiry
import YkServer.Theory.WebSocket.Resend
import YkServer.Theory.Hook.Contexts
import YkServer.Theory.Http.Response
import YkServer.Theory.Http.Ageing
import YkServer.Theory.Timer.Periods
import YkServer.Theory.IOManager.Waiting
import YkServer.Theory.Hook.Sleeps
import YkServer.Theory.StreamManager.RoundRobin
import YkServer.Theory.Log.Pattern
import YkServer.Theory.Log.Codec
import YkServer.Theory.Log.Reconfigure
import YkServer.Theory.Address.IPv4
import YkServer.Theory.Address.IPv6
import YkServer.Theory.Address.Text
import YkServer.Theory.Util.Base64
import YkServer.Theory.Util.Decimal
import YkServer.Theory.Http.Servlets
import YkServer.Theory.ConnPool.Taking
import YkServer.Theory.ByteArray.Buffers
import YkServer.Theory.ServiceDiscovery.Queries
import YkServer.Theory.ServiceDiscovery.Providers
import YkServer.Theory.Http.Methods
import YkServer.Theory.Address.Lookup
import YkServer.Theory.Address.Construction
import YkServer.Theory.Uri.Machine
import YkServer.Theory.Uri.Components
import YkServer.Theory.Uri.Roundtrip
import YkServer.Theory.HttpClient.Transfer
import YkServer.Theory.Http.Conversation
import YkServer.Theory.WebSocket.Handshake
import YkServer.Theory.WebSocket.Sessions
import YkServer.Theory.WebSocket.Exchange
import YkServer.Theory.Rock.Rounds
import YkServer.Theory.Rock.Calls
