import MpRpc.Machine
import MpRpc.OneShot
import MpRpc.Relay
import MpRpc.Relay.Tally
import MpRpc.Fallible
import MpRpc.Command
import MpRpc.Heap
import MpRpc.Framing
import MpRpc.FrameDecoder
import MpRpc.Msgpack.Object
import MpRpc.Msgpack.Wire
import MpRpc.Msgpack.Parse
import MpRpc.ErrorInfo
import MpRpc.SharedBinary
import MpRpc.Toml
import MpRpc.Toml.Form
import MpRpc.Config
import MpRpc.Config.Literal
import MpRpc.ThreadPool
import MpRpc.Message
import MpRpc.Message.Grammar
import MpRpc.Msgpack.Adaptor
import MpRpc.FormatMessage
import MpRpc.FormatMessage.Limit
import MpRpc.FormatMessage.Rendering
import MpRpc.ResponseFuture
import MpRpc.ResponseFuture.HandOver
import MpRpc.TypedResponseFuture
import MpRpc.Client
import MpRpc.Client.Invariant
import MpRpc.Client.Handlers
import MpRpc.Client.Reading
import MpRpc.Client.Pending
import MpRpc.Client.Failure
import MpRpc.Client.FreshIds
import MpRpc.Client.Distinct
import MpRpc.Execution
import MpRpc.Execution.Arguments
import MpRpc.Execution.Typed
import MpRpc.Server
import MpRpc.Server.Answers
import MpRpc.Server.CutOff
import MpRpc.Server.TcpAcceptor
import MpRpc.System
import MpRpc.System.Steps
import MpRpc.System.Correlation
import MpRpc.Client.Effects
import MpRpc.Decoding
import MpRpc.Transport.Buffer
import MpRpc.Transport.BufferMemory
import MpRpc.Transport.MsgpackParser
import MpRpc.Transport.ParserClass
import MpRpc.Transport.StreamSocket
import MpRpc.Transport.Reading
import MpRpc.Transport.ReadFailure
import MpRpc.Transport.SocketReader
import MpRpc.Transport.WriteQueue
import MpRpc.Transport.Writing
import MpRpc.Transport.WriteSafety
import MpRpc.Transport.StoredFrames
import MpRpc.Transport.Zstd
import MpRpc.Transport.ZstdReading
import MpRpc.Transport.ZstdProgress
import MpRpc.Transport.StreamCodec
import MpRpc.Transport.StreamLink
import MpRpc.Transport.StreamTally
import MpRpc.Transport.ParserCursors
import MpRpc.Transport.Shutdown
import MpRpc.Udp.Common
import MpRpc.Udp.Reader
import MpRpc.Udp.ZstdParser
import MpRpc.Udp.Codec
import MpRpc.Udp.Link
import MpRpc.Udp.Server
import MpRpc.Udp.Sessions
import MpRpc.Udp.Session
import MpRpc.Udp.Client
import MpRpc.Remote
import MpRpc.Remote.Answered
import MpRpc.Remote.Completion
import MpRpc.Remote.Correlation
import MpRpc.Server.Base
import MpRpc.Server.Session
import MpRpc.Remote.Python
import MpRpc.Remote.Tcp
import MpRpc.Remote.Sync
import MpRpc.Remote.SyncReturned
import MpRpc.Remote.Udp
import MpRpc.Python.Message
import MpRpc.Python.Agreement
import MpRpc.Python.MethodServer
import MpRpc.Python.Server
import MpRpc.Python.ServerAgreement
import MpRpc.Python.Packing
import MpRpc.Python.Client
import MpRpc.Python.ClientLoop
import MpRpc.Python.ClientRuns
import MpRpc.Python.ClientResults
