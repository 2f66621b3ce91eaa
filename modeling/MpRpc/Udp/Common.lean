import MpRpc.ErrorInfo

/-!
# Common — UDP sockets

`udp_common`, which the acceptor and the connector share: one `async_receive_from`
takes one datagram of any sender, the parser makes a message of it, and the
handler is called with the sender and the message. The handler runs inside the
`try` block around the parser.
-/

namespace MpRpc.Udp

variable {E : Type*}

/-- A completion of `async_receive_from`. -/
inductive Received (E : Type*) where
  | operationAborted
  | eof
  | failed (message : String)
  | datagram (sender : E) (bytes : Bytes)

/-- The arguments of a call of the handler given to `udp_common::async_read`. The
default constructed endpoint is `none`. -/
structure HandlerArguments (E : Type*) where
  error : ErrorInfo := {}
  endpoint : Option E := none
  data : MessageData := []

/-- `udp_common::on_read`: the call of the handler, if there is one. `parse` is
`parser_->parse`, which throws `mprpc::exception` on a parse error. -/
def onRead (parse : Bytes → Except ErrorInfo MessageData) :
    Received E → Option (HandlerArguments E)
  | .operationAborted => none
  | .eof => some { error := .of .eof "connection closed" }
  | .failed message => some { error := .of .failedToRead message }
  | .datagram sender bytes =>
      match parse bytes with
      | .ok data => some { endpoint := some sender, data }
      | .error info => some { error := info }

/-- `msgpack_parser::parse` -/
def msgpackParse (bytes : Bytes) : Except ErrorInfo MessageData := .ok bytes

end MpRpc.Udp
