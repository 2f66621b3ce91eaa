import MpRpc.Client.Effects
import MpRpc.Server
import MpRpc.TypedResponseFuture

/-!
# System — one client and one server

The client, the server with one accepted session, and a reliable channel that
keeps the order in each direction. A message is on its channel from the call of
`async_write` on, whenever the completion of that write is reported; the tasks
of the server are taken by any worker in any order. The user calls methods that
are registered, with parameters that fit: `ProperCall` carries the reasons.
-/

namespace MpRpc

open Msgpack

variable {H A W : Type*}

/-- A call of `async_request` that uses a registered method with as many
parameters as it has, all of which convert, and whose message can be packed. -/
structure ProperCall (server : SimpleMethodServer A W) extends PackableCall where
  executor : MethodExecutor A W
  args : List A
  registered : server.methods.lookup method = some executor
  arity : params.length = executor.params.length
  converts : convertParams executor.params params = some args

/-- The function of the method is called on the parameters. -/
def ProperCall.invocation {server : SimpleMethodServer A W} (call : ProperCall server) (w : W) :
    Invocation A :=
  ⟨call.executor.name, call.args, call.executor.function w call.args⟩

/-- The two ends and the messages under way. -/
structure System (H A : Type*) where
  client : Client H := {}
  toServer : List MessageData := []
  server : Server A := {}
  toClient : List MessageData := []

namespace System

/-- Every call is a proper one, and every write succeeds. -/
def Proper (server : SimpleMethodServer A W) : Client.UserEvent H → Prop
  | .asyncRequest call => ∃ proper : ProperCall server, proper.toPackableCall = call
  | .notify _ => False
  | .writeDone _ error => error.hasError = false
  | _ => True

inductive Event (server : SimpleMethodServer A W) (H : Type*) where
  | start
  | user (e : Client.UserEvent H) (proper : Proper server e)
  /-- the next message reaches the server -/
  | serverRead
  /-- a worker of the server takes the posted closure `i` -/
  | runTask (i : Nat) (w : W)
  /-- the next message reaches the client -/
  | clientRead (order : List Msgid)

/-- The messages of the writes that a step of the server has added. -/
def sentByServer (s t : Server A) : List MessageData :=
  (t.writes.drop s.writes.length).map SessionWrite.data

def step (server : SimpleMethodServer A W) (s : System H A) :
    Event server H → Option (System H A)
  | .start => (s.client.step .start).map fun client => { s with client }
  | .user e _ =>
      -- what the client has written is on the channel at once
      (s.client.step e.toClient).map fun client =>
        { s with client, toServer := s.toServer ++ s.client.sent client }
  | .serverRead =>
      match s.toServer with
      | [] => none
      | data :: toServer =>
          (s.server.step server (.readDone 0 {} data)).map fun t =>
            { s with toServer, server := t }
  | .runTask i w =>
      (s.server.step server (.runTask i w)).map fun t =>
        { s with server := t, toClient := s.toClient ++ sentByServer s.server t }
  | .clientRead order =>
      match s.toClient with
      | [] => none
      | data :: toClient =>
          (s.client.step (.readDone {} data order)).map fun client =>
            { s with client, toClient }

/-- Both ends after the server has accepted the session. -/
def machine (server : SimpleMethodServer A W) (H : Type*) :
    Machine (System H A) (Event server H) where
  init := { server := { sessions := [0], accepted := 1, reads := [0] } }
  step := step server

/-- The server of the initial state is the one that has accepted a session. -/
theorem accept_init (server : SimpleMethodServer A W) :
    Server.step server {} .accept = some (machine server H).init.server := rfl

end System

end MpRpc
