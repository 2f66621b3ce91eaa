import MpRpc.Machine
import MpRpc.Transport.MsgpackParser

/-!
# StreamSocket — reading messages from a stream socket

The reading half of `stream_socket_helper`. An `async_read` first looks into the
parser's buffer and then reads from the socket until a message is complete. An
event carries what the socket, the allocator and the supplied handler do: how
many bytes `async_read_some` gives, what `available()` returns (`none` when it
throws), whether the buffer can grow, and the `mprpc::exception` the handler
throws. One `async_read` is outstanding at a time.
-/

namespace MpRpc.Transport

/-- A call of the handler of an `async_read`: with a message, or with an error. -/
inductive ReadCall where
  | message (data : MessageData)
  | error (info : ErrorInfo)
deriving DecidableEq, Repr

/-- Where the outstanding `async_read` is. -/
inductive ReadPhase where
  /-- there is none -/
  | idle
  /-- `async_read_some` is outstanding with room for `bufSize` bytes -/
  | waiting (bufSize : Nat)
  /-- its handler was dropped without a call -/
  | dropped
deriving DecidableEq, Repr

/-- The reading half of `stream_socket_helper`, the bytes its socket still has
to deliver, the number of `async_read` calls so far, and the calls of their
handlers, each with the number of its `async_read`. -/
structure StreamSocket where
  parser : MsgpackStreamingParser
  phase : ReadPhase := .idle
  incoming : Bytes
  reads : Nat := 0
  calls : List (Nat × ReadCall) := []

namespace StreamSocket

/-- What `do_read_bytes` meets: the value of `available()` and the allocator. -/
structure Preparation where
  available : Option Nat
  allocation : Allocation

/-- The error codes `on_read_bytes` tells apart. -/
inductive SocketError where
  | operationAborted
  | eof
  | other (message : String)

inductive Event where
  /-- `async_read`: the posted `do_read_message` runs -/
  | asyncRead (throws : Option ErrorInfo) (next : Preparation)
  /-- `async_read_some` completes with `numBytes` bytes -/
  | readBytes (numBytes : Nat) (available : Option Nat) (throws : Option ErrorInfo)
      (next : Preparation)
  /-- `async_read_some` completes with an error -/
  | readError (err : SocketError)

/-- The handler of the outstanding `async_read` is called. -/
def call (s : StreamSocket) (c : ReadCall) : StreamSocket :=
  { s with phase := .idle, calls := s.calls ++ [(s.reads, c)] }

/-- `handler(error_info(), message)` in `parse_next`. A handler that throws
`mprpc::exception` throws it into the `try` block it is called from, so that it
is called again, with the error. -/
def deliver (s : StreamSocket) (message : MessageData) (throws : Option ErrorInfo) :
    StreamSocket :=
  match throws with
  | none => s.call (.message message)
  | some info => (s.call (.message message)).call (.error info)

/-- `parse_next`: whether the process is finished. -/
def parseNext (F : Framer UInt8) (s : StreamSocket) (numBytes : Nat) (throws : Option ErrorInfo) :
    Bool × StreamSocket :=
  match s.parser.parseNext F numBytes with
  | (.ok true, parser) =>
      (true, ({ s with parser := parser.get.2 }).deliver parser.get.1 throws)
  | (.ok false, parser) => (false, { s with parser := parser })
  | (.error info, parser) =>
      (true, ({ s with parser := parser }).call (.error info))

/-- `do_read_bytes`. An exception of `available()` or of the allocator leaves it
and takes the handler with it. -/
def doReadBytes (minBufSize : Nat) (s : StreamSocket) (next : Preparation) : StreamSocket :=
  match next.available with
  | none => { s with phase := .dropped }
  | some available =>
      let bufSize := max minBufSize available
      match s.parser.prepareBuffer bufSize next.allocation with
      | none => { s with phase := .dropped }
      | some parser => { s with parser := parser, phase := .waiting bufSize }

/-- `do_read_message` -/
def doReadMessage (F : Framer UInt8) (minBufSize : Nat) (s : StreamSocket)
    (throws : Option ErrorInfo) (next : Preparation) : StreamSocket :=
  match s.parseNext F 0 throws with
  | (true, s) => s
  | (false, s) => s.doReadBytes minBufSize next

/-- `on_read_bytes` without an error. -/
def onReadBytes (F : Framer UInt8) (minBufSize : Nat) (s : StreamSocket) (numBytes : Nat)
    (available : Option Nat) (throws : Option ErrorInfo) (next : Preparation) : StreamSocket :=
  match available with
  | none => { s with phase := .dropped }
  | some 0 =>
      match s.parseNext F numBytes throws with
      | (true, s) => s
      | (false, s) => s.doReadBytes minBufSize next
  -- more bytes can be read at once, so these are only counted
  | some (_ + 1) =>
      ({ s with parser := s.parser.consumed numBytes }).doReadBytes minBufSize next

/-- `on_read_bytes` with an error. -/
def onReadError (s : StreamSocket) : SocketError → StreamSocket
  | .operationAborted => { s with phase := .dropped }
  | .eof => s.call (.error (.of .eof "connection closed"))
  | .other message => s.call (.error (.of .failedToRead message))

/-- `async_read_some` writes its bytes behind the buffered ones. -/
def receive (s : StreamSocket) (numBytes : Nat) : StreamSocket :=
  { s with
    parser := s.parser.store (s.incoming.take numBytes)
    incoming := s.incoming.drop numBytes }

def step (F : Framer UInt8) (minBufSize : Nat) (s : StreamSocket) : Event → Option StreamSocket
  | .asyncRead throws next =>
      match s.phase with
      | .idle =>
          some (({ s with reads := s.reads + 1 }).doReadMessage F minBufSize throws next)
      | _ => none
  | .readBytes numBytes available throws next =>
      match s.phase with
      | .waiting bufSize =>
          if 0 < numBytes ∧ numBytes ≤ bufSize ∧ numBytes ≤ s.incoming.length then
            some ((s.receive numBytes).onReadBytes F minBufSize numBytes available throws next)
          else none
      | _ => none
  | .readError err =>
      match s.phase with
      | .waiting _ => some (s.onReadError err)
      | _ => none

/-- A socket that will deliver the bytes `stream`. -/
def machine (F : Framer UInt8) (minBufSize : Nat) (fresh : Nat → UInt8) (stream : Bytes) :
    Machine StreamSocket Event where
  init := { parser := { buffer := .empty fresh }, incoming := stream }
  step := step F minBufSize

/-- The messages handed to the handlers, in order. -/
def messages (s : StreamSocket) : List MessageData :=
  s.calls.filterMap fun
    | (_, .message data) => some data
    | (_, .error _) => none

end StreamSocket

end MpRpc.Transport
