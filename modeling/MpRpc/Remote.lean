import MpRpc.Client.Effects
import MpRpc.Relay
import MpRpc.Transport.StreamSocket

/-!
# Remote — calls over a connection

A client and what is behind its connector, as two relays: `front` takes the messages
that the client writes and gives out what a server makes of them, `back` takes the
responses and gives out the calls of the client's read handler. Which transport, which
compression and which server that is does not matter here.

The client has been started once. A message is given to `front` when `async_write` is
called; its completion, successful or not, is reported at any time. The transport calls
the handler of a read again when it throws `mprpc::exception`; that it never does is part
of what is proved (`Correlated.quiet`), so no such event is needed.
-/

namespace MpRpc

open Transport (ReadCall)

/-- What became of a message at the server: the call of a user's function, recorded as an
`I`, and the response. -/
structure Answer (I : Type*) where
  message : MessageData
  invocation : Option I := none
  response : Option MessageData := none

/-- The client, the two relays, the messages that the client has written and the answers
that the server has given. -/
structure Remote (H I σ τ : Type*) where
  client : Client H
  front : σ
  back : τ
  sent : List MessageData := []
  served : List (Answer I) := []

/-- The msgid of a message that is a request. -/
def requestId (data : MessageData) : Option Msgid :=
  match Message.ofData data with
  | .ok msg => if msg.type = some .request then some msg.msgid else none
  | .error _ => none

namespace Remote

variable {H I σ τ ι κ : Type*}

inductive Event (ι κ H : Type*) where
  | user (e : Client.UserEvent H)
  /-- a move of the transport to the server, or of the server -/
  | front (i : ι)
  /-- a move of the transport to the client; `order` is that of `requests_`, if it is
  walked -/
  | back (i : κ) (order : List Msgid)

/-- The handler of the client's read is called. -/
def onReadCall (order : List Msgid) : ReadCall → Client.Event H
  | .message data => .readDone {} data order
  | .error info => .readDone info [] order

def step (front : Relay σ ι MessageData (Answer I)) (back : Relay τ κ MessageData ReadCall)
    (s : Remote H I σ τ) : Event ι κ H → Option (Remote H I σ τ)
  | .user e =>
      (s.client.step e.toClient).bind fun client =>
        let sent := s.client.sent client
        (front.putAll s.front sent).map fun t =>
          { s with client, front := t, sent := s.sent ++ sent }
  | .front i =>
      match front.step s.front i with
      | none => none
      | some (t, none) => some { s with front := t }
      | some (t, some answer) =>
          (back.putAll s.back answer.response.toList).map fun u =>
            { s with front := t, back := u, served := s.served ++ [answer] }
  | .back i order =>
      match back.step s.back i with
      | none => none
      | some (t, none) => some { s with back := t }
      | some (t, some call) =>
          (s.client.step (onReadCall order call)).map fun client => { s with client, back := t }

/-- The client after `start`, with nothing under way. -/
def machine (H : Type*) (front : Relay σ ι MessageData (Answer I))
    (back : Relay τ κ MessageData ReadCall) : Machine (Remote H I σ τ) (Event ι κ H) where
  init := { client := { reads := 1 }, front := front.init, back := back.init }
  step := step front back

theorem start_init (front : Relay σ ι MessageData (Answer I))
    (back : Relay τ κ MessageData ReadCall) :
    Client.step {} .start = some (machine H front back).init.client := rfl

/-- The values that an event draws from the counter of the client. -/
def Event.draws : Event ι κ H → Nat
  | .user e => e.toClient.draws
  | _ => 0

def draws (es : List (Event ι κ H)) : Nat := (es.map Event.draws).sum

/-! ## What the client is to see -/

/-- Request `r` was completed with the response to its own message: the server has
processed that message, and `msg` is what it answered. -/
structure OwnAnswer (s : Remote H I σ τ) (r : Nat) (msg : Message) (answer : Answer I) :
    Prop where
  served : answer ∈ s.served
  own : ∃ call : PackableCall, s.client.asked r = some (call.method, call.params) ∧
    s.client.idOf r = some msg.msgid ∧
    answer.message = packRequest msg.msgid call.method call.params
  response : ∃ data, answer.response = some data ∧ Client.IsResponse data msg

structure Correlated (s : Remote H I σ τ) : Prop where
  /-- Every request that is completed without an error is completed with the answer to its
  own message. -/
  own : ∀ r error msg, s.client.completion r = some (error, msg) → error.hasError = false →
    ∃ answer, s.OwnAnswer r msg answer
  /-- No message is processed more often than it was sent. -/
  atMostOnce : (s.served.map Answer.message : Multiset MessageData) ≤ s.sent
  /-- No request is processed twice. -/
  executedOnce : ((s.served.map Answer.message).filterMap requestId).Nodup
  /-- The handler of the client's reads has thrown nothing at the transport. -/
  quiet : s.client.caught = []

end Remote

end MpRpc
