import MpRpc.Execution
import MpRpc.Machine

/-!
# Server — reading requests and answering them

`mprpc::server` over `server_base`: sessions that are read one message at a
time, and closures posted to the thread pool, which runs them in any order.
Each message handed to `on_read` gets the next index in `received`; the closure
posted for it, the user's function it calls and the response it writes carry
that index as `origin`, as the closure carries its captures.

The peer and the sockets are the environment: reads complete with any outcome,
and a session can lose its peer at any time, also because the server shut it
down.
-/

namespace MpRpc

/-- A closure posted to the thread pool. -/
inductive Task where
  /-- `do_process_message`, posted by the method server -/
  | process (origin session : Nat) (msg : Message)
  /-- posted by `async_remove_session` -/
  | remove (session : Nat)

/-- The session a closure holds. -/
def Task.session : Task → Nat
  | .process _ session _ => session
  | .remove session => session

/-- The received message a closure processes. -/
def Task.origin : Task → Option Nat
  | .process origin _ _ => some origin
  | .remove _ => none

/-- A call of `session->async_write`. -/
structure SessionWrite where
  origin : Nat
  session : Nat
  data : MessageData

/-- The state of the server and of the pool. Sessions are numbered in the order
they are accepted. -/
structure Server (A : Type*) where
  sessions : List Nat := []
  accepted : Nat := 0
  /-- sessions whose socket has no peer, so that `remote_address()` throws -/
  disconnected : List Nat := []
  /-- the session of every outstanding `async_read` -/
  reads : List Nat := []
  received : List (Nat × MessageData) := []
  tasks : List Task := []
  invocations : List (Nat × Invocation A) := []
  writes : List SessionWrite := []
  thrown : List StdException := []

namespace Server

variable {A W : Type*}

/-- `threads_->post`. -/
def post (s : Server A) (task : Task) : Server A := { s with tasks := s.tasks ++ [task] }

/-- `async_remove_session`. -/
def asyncRemoveSession (s : Server A) (session : Nat) : Server A := s.post (.remove session)

/-- `do_read`. -/
def doRead (s : Server A) (session : Nat) : Server A := { s with reads := s.reads ++ [session] }

/-- `weak_session.lock()` succeeds: the session is in `sessions_` or held by a
posted closure. -/
def alive (s : Server A) (session : Nat) : Bool :=
  session ∈ s.sessions || s.tasks.any (·.session = session)

/-- `server::async_process_message`; only `mprpc::exception` is caught. -/
def asyncProcessMessage (s : Server A) (origin session : Nat) (data : MessageData) :
    Except StdException (Server A) :=
  match Message.ofData data with
  | .ok msg => .ok (s.post (.process origin session msg))
  | .error (.exception _) => .ok (s.asyncRemoveSession session)
  -- `msgpack::insufficient_bytes` is no `mprpc::exception`
  | .error ex => .error ex

/-- `server_base::on_read`. -/
def onRead (s : Server A) (session : Nat) (error : ErrorInfo) (data : MessageData) : Server A :=
  if error.hasError then s.asyncRemoveSession session
  else
    let t := { s with received := s.received ++ [(session, data)] }
    match t.asyncProcessMessage s.received.length session data with
    | .ok u => u.doRead session
    -- the exception leaves before the next read is issued
    | .error ex => { t with thrown := t.thrown ++ [ex] }

/-- `server_base::on_execution`: the writes it makes. -/
def onExecution (origin session : Nat) (call : HandlerCall) : List SessionWrite :=
  if call.error.hasError then []
  else if !call.responseExists then []
  else [⟨origin, session, call.response⟩]

/-- A worker runs `do_process_message` with the handler that `on_read` passed. -/
def runProcess (server : SimpleMethodServer A W) (s : Server A) (origin session : Nat)
    (msg : Message) (w : W) : Server A :=
  let done := server.doProcessMessage (session ∉ s.disconnected) w msg
  let t := { s with invocations := s.invocations ++ (done.invocation.map (origin, ·)).toList }
  match done.handled with
  | .error ex => { t with thrown := t.thrown ++ [ex] }
  | .ok call => { t with writes := t.writes ++ onExecution origin session call }

/-- A worker runs one closure. -/
def runTask (server : SimpleMethodServer A W) (s : Server A) (w : W) : Task → Server A
  | .process origin session msg => s.runProcess server origin session msg w
  | .remove session => { s with sessions := s.sessions.erase session }

inductive Event (W : Type*) where
  /-- `on_accept` with a session -/
  | accept
  /-- the socket of a session loses its peer -/
  | disconnect (session : Nat)
  /-- the outstanding read `i` completes -/
  | readDone (i : Nat) (error : ErrorInfo) (data : MessageData)
  /-- a worker takes the posted closure `i` -/
  | runTask (i : Nat) (w : W)

def step (server : SimpleMethodServer A W) (s : Server A) : Event W → Option (Server A)
  | .accept =>
      some (doRead { s with sessions := s.sessions ++ [s.accepted], accepted := s.accepted + 1 }
        s.accepted)
  | .disconnect session => some { s with disconnected := s.disconnected ++ [session] }
  | .readDone i error data =>
      match s.reads[i]? with
      | none => none
      | some session =>
          let t := { s with reads := s.reads.eraseIdx i }
          if s.alive session then some (t.onRead session error data) else some t
  | .runTask i w =>
      match s.tasks[i]? with
      | none => none
      | some task => some (runTask server { s with tasks := s.tasks.eraseIdx i } w task)

/-- The server, from its construction. -/
def machine (server : SimpleMethodServer A W) : Machine (Server A) (Event W) :=
  ⟨{}, step server⟩

variable {server : SimpleMethodServer A W} {s t : Server A}

/-- A read completes: its session is still there and is read on, or nobody is left. -/
theorem step_readDone {i : Nat} {error : ErrorInfo} {data : MessageData}
    (h : s.step server (.readDone i error data) = some t) :
    ∃ session, s.reads[i]? = some session ∧
      (s.alive session = true ∧
          t = onRead { s with reads := s.reads.eraseIdx i } session error data ∨
        s.alive session = false ∧ t = { s with reads := s.reads.eraseIdx i }) := by
  simp only [step] at h
  split at h
  · cases h
  · rename_i session hsession
    refine ⟨session, hsession, ?_⟩
    cases halive : s.alive session with
    | true =>
      rw [halive] at h
      cases h
      exact .inl ⟨rfl, rfl⟩
    | false =>
      rw [halive] at h
      cases h
      exact .inr ⟨rfl, rfl⟩

/-- A worker runs one of the posted closures. -/
theorem step_runTask {i : Nat} {w : W} (h : s.step server (.runTask i w) = some t) :
    ∃ task, s.tasks[i]? = some task ∧
      t = runTask server { s with tasks := s.tasks.eraseIdx i } w task := by
  simp only [step] at h
  split at h
  · cases h
  · rename_i task htask
    cases h
    exact ⟨task, htask, rfl⟩

end Server

end MpRpc
