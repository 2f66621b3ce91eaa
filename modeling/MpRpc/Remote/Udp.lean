import MpRpc.Remote.Tcp
import MpRpc.Udp.Session

/-!
# Udp — remote calls over UDP

A client with its UDP socket, the network in both directions, and the server with one UDP
socket, which other peers send to as well. The client gets datagrams of the server only,
and the network does not duplicate datagrams.
-/

namespace MpRpc.Remote

open Msgpack Udp

variable {A W E : Type*} [DecidableEq E]

/-- The network, and the server behind it; the client sends from `me`. -/
def udpFront (K : DatagramCodec) (bufSize : Nat) (server : SimpleMethodServer A W) (me : E) :
    Relay (Outbox K × UdpHost K A E) (Outbox.Event K ⊕ UdpHost.Event K E W) MessageData
      (Answer (Invocation A)) :=
  Relay.comp (Outbox.relay K bufSize) (UdpHost.relay K server me) some

/-- **The network brings every message to the server at most once**, as it is. -/
def udpLedger (K : DatagramCodec) (bufSize : Nat) (server : SimpleMethodServer A W) (me : E) :
    (udpFront K bufSize server me).Ledger (fun _ => True) Relay.AnyMove (UdpHost.Serves server)
      fun _ => False :=
  (Relay.Ledger.comp True (Outbox.ledger K bufSize) (UdpHost.ledger K server me) (by rintro b ⟨⟩)
    (fun hno => absurd trivial hno) (by
      rintro data arrival - ⟨b, ⟨-, hcarries⟩, hb⟩
      cases hb
      exact hcarries)).weaken
    (fun _ h => h) (fun s i _ => Relay.fairBoth_anyMove s i) (by
      rintro data answer - ⟨arrival, ⟨b, ⟨rfl, -⟩, hb⟩, hserves⟩
      cases hb
      exact hserves)

theorem conforms_udp (server : SimpleMethodServer A W) :
    Conforms (fun _ => True) (UdpHost.Serves server) fun _ => True where
  request call id := trivial
  notification call := trivial
  message data answer h := by
    obtain ⟨session, s, origin, msg, w, -, hmessage, -⟩ := h
    exact hmessage
  response data answer response h hresponse := by
    obtain ⟨session, hserves⟩ := h
    obtain ⟨msg, m, w, hmsg, htype, -, -, rfl⟩ := response_of_serves hserves hresponse
    exact ⟨trivial, msg, _, hmsg, htype, isResponse_respond _ _, rfl⟩

/-- The client, the network and the server. -/
def udpMachine (H : Type*) (server : SimpleMethodServer A W) (me peer : E) (K : DatagramCodec)
    (bufSize clientBufSize : Nat) :=
  machine H (udpFront K bufSize server me) (UdpLink.relay K clientBufSize peer)

abbrev storedDatagrams : DatagramCodec := datagramCodec storedCompression (fun _ => 0) .zstd

/-- One request is sent, executed and answered; the server is at endpoint 1 and the client
at 0. -/
def refuseDatagram :
    List (Event (Outbox.Event storedDatagrams ⊕ UdpHost.Event storedDatagrams Nat Unit)
      (UdpLink.Event storedDatagrams) Unit) :=
  [.front (.inr (.server .runPosted)), .user (.asyncRequest refuseFalse), .user (.register 0),
    .front (.inl (.write none true)), .front (.inl (.arrive 0 none)),
    .front (.inr (.server .advance)), .front (.inr (.server .advance)),
    .front (.inr (.server (.runTask 0 ()))), .back .asyncRead [0], .back (.write none true) [0],
    .back (.receive 1 0 none) [0]]

end MpRpc.Remote
