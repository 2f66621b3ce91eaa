import MpRpc.Server
import MpRpc.Udp.Common

/-!
# Server — the server behind a UDP acceptor

`udp_acceptor` makes a `udp_session` of every datagram, and the session gives its
one message to its first `async_read` and an error to the second. Both answers
come at once, so that accepting, inserting, reading, dispatching, the second read
and its error nest in one call stack, which runs on the strand of the socket. At
the bottom of the stack `do_accept` posts the next receive.

The other workers run the posted closures meanwhile, between any two actions of
the stack; so each action on the members of the server is a step of its own, and
`phase` says which one is next.
-/

namespace MpRpc.Udp

/-- What the handler of a datagram does next. -/
inductive AcceptPhase where
  /-- the strand is free -/
  | idle
  /-- `server_base::on_accept` with a new session whose `data_` is `data` -/
  | accepting (data : MessageData)
  /-- `server_base::on_read`, called by `udp_session::async_read` -/
  | reading (session : Nat) (error : ErrorInfo) (data : MessageData)
  /-- `do_accept` at the end of `on_accept` -/
  | rearming

/-- A server with one `udp_acceptor`. Sessions are numbered as in `Server`. -/
structure UdpServer (A : Type*) where
  server : Server A := {}
  phase : AcceptPhase := .idle
  /-- `udp_common::do_read` closures that wait on the strand -/
  posted : Nat := 0
  /-- outstanding `async_receive_from` -/
  receives : Nat := 0
  /-- the messages made of the datagrams so far -/
  datagrams : List MessageData := []
  /-- the messages given to the method server -/
  dispatched : List Message := []

namespace UdpServer

variable {A W E : Type*}

/-- `server_base::do_accept`, `udp_acceptor::async_accept` and
`udp_common::async_read`. -/
def doAccept (s : UdpServer A) : UdpServer A := { s with posted := s.posted + 1, phase := .idle }

/-- `udp_session::async_read` of a session whose `data_` is `data`: the call of its
handler. -/
def asyncRead (session : Nat) (data : MessageData) : AcceptPhase :=
  if data = [] then
    .reading session
      (.of .failedToRead "second call to mprpc::transport::udp::udp_session::async_read") []
  else .reading session {} data

/-- `udp_acceptor::on_read` -/
def onReceive (s : UdpServer A) (arguments : HandlerArguments E) : UdpServer A :=
  -- `on_accept` with the error `failed_to_accept` only calls `do_accept`
  if arguments.error.hasError then { s with phase := .rearming }
  else { s with phase := .accepting arguments.data, datagrams := s.datagrams ++ [arguments.data] }

/-- The completion handler of `async_receive_from`. -/
def onReceiveDone (parse : Bytes → Except ErrorInfo MessageData) (s : UdpServer A)
    (received : Received E) : UdpServer A :=
  match onRead parse received with
  | none => s
  | some arguments => s.onReceive arguments

/-- The message that the constructor `message` makes of the data. -/
def accepted (data : MessageData) : Option Message := (Message.ofData data).toOption

/-- `server::async_process_message`, called by `on_read`, and the second read. -/
def process (s : UdpServer A) (session : Nat) (data : MessageData) : UdpServer A :=
  let server := { s.server with received := s.server.received ++ [(session, data)] }
  match server.asyncProcessMessage s.server.received.length session data with
  | .ok server =>
      { s with
        server
        dispatched := s.dispatched ++ (accepted data).toList
        phase := asyncRead session [] }
  -- the exception leaves the whole stack
  | .error ex =>
      { s with server := { server with thrown := server.thrown ++ [ex] }, phase := .idle }

/-- The next action of the handler that runs on the strand. -/
def advance (s : UdpServer A) : Option (UdpServer A) :=
  match s.phase with
  | .idle => none
  | .accepting data =>
      let session := s.server.accepted
      some { s with
        server := { s.server with
          sessions := s.server.sessions ++ [session], accepted := session + 1 }
        phase := asyncRead session data }
  | .reading session error data =>
      if error.hasError then
        some { s with server := s.server.asyncRemoveSession session, phase := .rearming }
      else some (s.process session data)
  | .rearming => some s.doAccept

inductive Event (E W : Type*) where
  /-- the strand runs `udp_common::do_read` -/
  | runPosted
  /-- an outstanding receive completes, and its handler starts on the strand -/
  | receive (received : Received E)
  /-- the handler on the strand goes on -/
  | advance
  /-- a worker takes the posted closure `i` -/
  | runTask (i : Nat) (w : W)

def step (methods : SimpleMethodServer A W) (parse : Bytes → Except ErrorInfo MessageData)
    (s : UdpServer A) : Event E W → Option (UdpServer A)
  | .runPosted =>
      match s.phase, s.posted with
      | .idle, n + 1 => some { s with posted := n, receives := s.receives + 1 }
      | _, _ => none
  | .receive received =>
      match s.phase, s.receives with
      | .idle, n + 1 => some (({ s with receives := n }).onReceiveDone parse received)
      | _, _ => none
  | .advance => s.advance
  | .runTask i w =>
      match s.server.tasks[i]? with
      | none => none
      | some task =>
          some { s with
            server := Server.runTask methods { s.server with tasks := s.server.tasks.eraseIdx i } w
              task }

/-- The server, from `start()` on. -/
def machine (E : Type*) (methods : SimpleMethodServer A W)
    (parse : Bytes → Except ErrorInfo MessageData) : Machine (UdpServer A) (Event E W) :=
  ⟨doAccept {}, step methods parse⟩

end UdpServer

end MpRpc.Udp
