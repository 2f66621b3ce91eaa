import Mathlib
import MpRpc.Machine
import MpRpc.ResponseFuture

/-!
# Client — sending requests and completing them

`mprpc::client` as a machine. A call of `async_request` is a record that lives
on after the call returns, because its future does: `phase` says how far the
loop has come, and the callers' threads may be anywhere in it. What runs under
`mutex_` is one step, and so is `on_read`: its parts before the lock only
issue the next read and parse the bytes, and when `set_response` throws, the
shared state is as it was when the `catch` clause takes the lock again.

The transport is the environment. It completes the outstanding reads and
writes in any order and with any outcome, and, as both transports do, answers
an `mprpc::exception` that leaves `on_read` by calling it again with the
exception's error. The order in which `requests_` is walked is a parameter of
the event, and any permutation of the keys is a possible order.
-/

namespace MpRpc

open Msgpack

/-- How far the loop of `async_request` has come. -/
inductive CallPhase where
  /-- `fetch_add` returned `candidate`, not yet tried under the lock -/
  | fetched (candidate : Msgid)
  /-- the last candidate was in use, and the loop starts over -/
  | collided
  /-- `emplace` succeeded with `msgid` and the call has returned -/
  | registered (msgid : Msgid)
deriving DecidableEq, Repr

/-- One call of `async_request`, with the cell its promise and future share. -/
structure Call (H : Type*) where
  method : Bytes
  params : List Object
  phase : CallPhase
  future : ResponseFutureData H := {}

/-- An `async_write` that has not completed. `msgid` is the one captured by the
callback of `do_write_request`, and `none` for a notification. -/
structure Write where
  msgid : Option Msgid
  data : MessageData

/-- The members of `client`, the calls its promises belong to, and what is
outstanding at the transport. A promise in `requests` is the index of its
call. -/
structure Client (H : Type*) where
  nextMsgid : Msgid := 0
  requests : AList (fun _ : Msgid => Nat) := ∅
  calls : List (Call H) := []
  writes : List Write := []
  reads : Nat := 0
  /-- a read error has been delivered to `on_read` -/
  readFailed : Bool := false
  /-- exceptions of `on_read` that the transport has caught and will deliver
  as errors -/
  caught : List ErrorInfo := []
  /-- every exception that has left `on_read` or a write callback -/
  thrown : List StdException := []

namespace Client

variable {H : Type*}

/-! ## Reading and writing the record of a call -/

def phase (s : Client H) (r : Nat) : Option CallPhase := s.calls[r]?.map Call.phase

/-- The method and the parameters of call `r`. -/
def asked (s : Client H) (r : Nat) : Option (Bytes × List Object) :=
  s.calls[r]?.map fun c => (c.method, c.params)

/-- The msgid under which call `r` was registered. -/
def idOf (s : Client H) (r : Nat) : Option Msgid :=
  match s.phase r with
  | some (.registered msgid) => some msgid
  | _ => none

def future (s : Client H) (r : Nat) : ResponseFutureData H :=
  (s.calls[r]?.map Call.future).getD {}

def completion (s : Client H) (r : Nat) : Option (ErrorInfo × Message) :=
  (s.future r).completion

def setPhase (s : Client H) (r : Nat) (phase : CallPhase) : Client H :=
  { s with calls := s.calls.modify r fun c => { c with phase } }

def setFuture (s : Client H) (r : Nat) (future : ResponseFutureData H) : Client H :=
  { s with calls := s.calls.modify r fun c => { c with future } }

/-- Request `r` is registered and not completed. -/
def Pending (s : Client H) (r : Nat) : Prop :=
  (∃ m, s.idOf r = some m) ∧ s.completion r = none

/-- The entry of `requests` under `m` is of a completed request. -/
def Answered (s : Client H) (m : Msgid) : Prop :=
  ∃ r, s.requests.lookup m = some r ∧ s.completion r ≠ none

/-! ## The member functions -/

/-- `do_read`. -/
def doRead (s : Client H) : Client H := { s with reads := s.reads + 1 }

/-- `do_write_request`. -/
def doWriteRequest (s : Client H) (msgid : Msgid) (msg : MessageData) : Client H :=
  { s with writes := s.writes ++ [⟨some msgid, msg⟩] }

/-- `emplace` has inserted the promise of call `r`: the call gets its msgid and
its message is written. -/
def enroll (s : Client H) (r : Nat) (msgid : Msgid) (msg : MessageData) : Client H :=
  doWriteRequest
    (setPhase { s with requests := s.requests.insert msgid r } r (.registered msgid)) msgid msg

/-- The part of the loop of `async_request` that runs under the lock. -/
def emplace (s : Client H) (r : Nat) (c : Call H) (msgid : Msgid) : Client H :=
  if msgid ∈ s.requests then s.setPhase r .collided
  else s.enroll r msgid (packRequest msgid c.method c.params)

/-- The callback of `do_write_request`, called with an error. The entry is
erased only if `set_error` did not throw. -/
def onWriteError (s : Client H) (msgid : Msgid) (error : ErrorInfo) :
    Client H × Option StdException :=
  match s.requests.lookup msgid with
  | none => (s, some .outOfRange)
  | some r =>
      match (s.future r).setError error with
      | .error info => (s, some (.exception info))
      | .ok future =>
          ({ s.setFuture r future with requests := s.requests.erase msgid }, none)

/-- `for (auto& req : requests_) { req.second.promise.set_error(error); }`. -/
def setErrorAll (error : ErrorInfo) : List Nat → Client H → Client H × Option StdException
  | [], s => (s, none)
  | r :: rs, s =>
      match (s.future r).setError error with
      | .error info => (s, some (.exception info))
      | .ok future => setErrorAll error rs (s.setFuture r future)

/-- The same loop over the entries of `requests` in the order of the keys. -/
def broadcast (s : Client H) (error : ErrorInfo) (order : List Msgid) :
    Client H × Option StdException :=
  setErrorAll error (order.filterMap s.requests.lookup) s

/-- The `try` block of `on_read`. -/
def receive (s : Client H) (data : MessageData) : Except StdException (Client H) :=
  match Message.ofData data with
  | .error ex => .error ex
  | .ok msg =>
      if msg.type ≠ some .response then
        .error (.exception (.of .invalidMessage "message type is not response"))
      else
        match s.requests.lookup msg.msgid with
        -- nobody waits for this msgid: only a log line
        | none => .ok s
        | some r =>
            match (s.future r).setResponse msg with
            | .error info => .error (.exception info)
            | .ok future => .ok (s.setFuture r future)

/-- `on_read`. The `catch` clause hands on the argument `error`, not the error
of the exception it caught. -/
def onRead (s : Client H) (error : ErrorInfo) (data : MessageData) (order : List Msgid) :
    Client H × Option StdException :=
  -- after an error no further read is issued
  if error.hasError then s.broadcast error order
  else
    match s.doRead.receive data with
    | .ok t => (t, none)
    | .error (.exception _) => s.doRead.broadcast error order
    | .error ex => (s.doRead, some ex)

/-! ## The machine -/

/-- An exception leaves a completion handler into the thread pool. -/
def escape (out : Client H × Option StdException) : Client H :=
  match out with
  | (s, none) => s
  | (s, some ex) => { s with thrown := s.thrown ++ [ex] }

/-- An exception leaves a successful read into the `try` block of the
transport, which catches `mprpc::exception` only. -/
def escapeToTransport (out : Client H × Option StdException) : Client H :=
  match out with
  | (s, some (.exception info)) =>
      { s with thrown := s.thrown ++ [.exception info], caught := s.caught ++ [info] }
  | out => escape out

inductive Event (H : Type*) where
  /-- `start` -/
  | start
  /-- `async_request` creates its promise and fetches its first candidate -/
  | call (method : Bytes) (params : List Object)
  /-- the loop fetches another candidate -/
  | fetch (r : Nat)
  /-- the loop tries its candidate under the lock -/
  | register (r : Nat)
  /-- the user sets a handler on the future that was returned -/
  | setHandler (r : Nat) (handler : H)
  /-- `notify` -/
  | notify (method : Bytes) (params : List Object)
  /-- the outstanding write `i` completes -/
  | writeDone (i : Nat) (error : ErrorInfo)
  /-- an outstanding read completes -/
  | readDone (error : ErrorInfo) (data : MessageData) (order : List Msgid)
  /-- the transport delivers an exception it caught -/
  | readAgain (order : List Msgid)

def step (s : Client H) : Event H → Option (Client H)
  | .start => some s.doRead
  | .call method params =>
      some { s with
        calls := s.calls ++ [{ method, params, phase := .fetched s.nextMsgid }]
        nextMsgid := s.nextMsgid + 1 }
  | .fetch r =>
      match s.phase r with
      | some .collided =>
          some { s.setPhase r (.fetched s.nextMsgid) with nextMsgid := s.nextMsgid + 1 }
      | _ => none
  | .register r =>
      match s.calls[r]? with
      | some c =>
          match c.phase with
          | .fetched candidate => some (s.emplace r c candidate)
          | _ => none
      | none => none
  | .setHandler r handler =>
      match s.idOf r with
      | none => none
      | some _ =>
          match (s.future r).setHandler handler with
          -- the exception goes to the caller of `then`
          | .error _ => some s
          | .ok future => some (s.setFuture r future)
  | .notify method params =>
      some { s with writes := s.writes ++ [⟨none, packNotification method params⟩] }
  | .writeDone i error =>
      match s.writes[i]? with
      | none => none
      | some w =>
          let s := { s with writes := s.writes.eraseIdx i }
          match w.msgid with
          | none => some s
          | some msgid =>
              if error.hasError then some (escape (s.onWriteError msgid error)) else some s
  | .readDone error data order =>
      if 0 < s.reads ∧ order.Perm s.requests.keys then
        let s := { s with reads := s.reads - 1, readFailed := s.readFailed || error.hasError }
        if error.hasError then some (escape (s.onRead error data order))
        else some (escapeToTransport (s.onRead error data order))
      else none
  | .readAgain order =>
      match s.caught with
      | [] => none
      | info :: caught =>
          if order.Perm s.requests.keys then
            some (escape (onRead { s with caught, readFailed := true } info [] order))
          else none

/-- The client, from its construction. -/
def machine (H : Type*) : Machine (Client H) (Event H) := ⟨{}, step⟩

end Client

end MpRpc
