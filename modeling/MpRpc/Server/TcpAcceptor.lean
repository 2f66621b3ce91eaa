import MpRpc.Server

/-!
# TcpAcceptor — accepting TCP connections

`tcp_acceptor` under `server_base`. The server asks for one connection at a time:
`do_accept` calls `async_accept`, and `on_accept`, at the end of the chain
acceptor, session, server, calls `do_accept` again. On the way the acceptor and
the constructor of the session ask the accepted socket for its remote endpoint,
without an `error_code` argument, so that each of the two throws
`std::system_error` when the peer has gone; the exception leaves the completion
handler and takes the rest of the chain with it.

The other events of the server, reads and closures of the pool, happen in
between.
-/

namespace MpRpc

/-- What becomes of the peer of an accepted socket while it is asked for. -/
inductive AcceptedPeer where
  | stays
  /-- gone when `tcp_acceptor::on_accept` asks -/
  | gone
  /-- gone when the constructor of `tcp_session` asks again -/
  | leaves
deriving DecidableEq, Repr

/-- A completion of `async_accept`. -/
inductive AcceptResult where
  | operationAborted
  | failed (message : String)
  | accepted (peer : AcceptedPeer)
deriving DecidableEq, Repr

/-- A server with one `tcp_acceptor`: how many `async_accept` are outstanding on
it, and the exceptions that have left their completion handler. -/
structure TcpServer (A : Type*) where
  server : Server A := {}
  accepts : Nat := 0
  thrown : List StdException := []

namespace TcpServer

variable {A W : Type*} {methods : SimpleMethodServer A W} {s t : TcpServer A}

/-- `server_base::do_accept` -/
def doAccept (s : TcpServer A) : TcpServer A := { s with accepts := s.accepts + 1 }

/-- The session is inserted and its first read issued. -/
def insertSession (s : Server A) : Server A :=
  Server.doRead { s with sessions := s.sessions ++ [s.accepted], accepted := s.accepted + 1 }
    s.accepted

/-- `server_base::on_accept` -/
def onAccept (s : TcpServer A) (error : ErrorInfo) : TcpServer A :=
  if error.hasError then s.doAccept
  else ({ s with server := insertSession s.server }).doAccept

/-- The constructor of `tcp_session`. -/
def makeSession : AcceptedPeer → Except StdException Unit
  | .stays => .ok ()
  | _ => .error .systemError

/-- `tcp_acceptor::on_accept` without an error: the session for the handler. -/
def acceptSession : AcceptedPeer → Except StdException Unit
  | .gone => .error .systemError
  | peer => makeSession peer

/-- The completion handler of `async_accept`. -/
def onAcceptDone (s : TcpServer A) : AcceptResult → TcpServer A
  | .operationAborted => s
  | .failed message => s.onAccept (.of .failedToAccept message)
  | .accepted peer =>
      match acceptSession peer with
      | .ok () => s.onAccept {}
      | .error ex => { s with thrown := s.thrown ++ [ex] }

inductive Event (W : Type*) where
  /-- an outstanding `async_accept` completes -/
  | acceptDone (result : AcceptResult)
  /-- anything else that happens to the server -/
  | server (e : Server.Event W)

def step (methods : SimpleMethodServer A W) (s : TcpServer A) : Event W → Option (TcpServer A)
  | .acceptDone result =>
      match s.accepts with
      | 0 => none
      | n + 1 => some (({ s with accepts := n }).onAcceptDone result)
  -- sessions come from the acceptor only
  | .server .accept => none
  | .server e => (Server.step methods s.server e).map fun server => { s with server }

/-- The server, from `start()` on. -/
def machine (methods : SimpleMethodServer A W) : Machine (TcpServer A) (Event W) :=
  ⟨doAccept {}, step methods⟩

/-- The other events are steps of the server. -/
theorem step_server {e : Server.Event W} (h : step methods s (.server e) = some t) :
    ∃ server, Server.step methods s.server e = some server ∧ t = { s with server } := by
  cases e with
  | accept => cases h
  | disconnect session => exact ⟨_, rfl, (Option.some.inj h).symm⟩
  | readDone i error data =>
    obtain ⟨server, hserver, rfl⟩ := Option.map_eq_some_iff.mp h
    exact ⟨server, hserver, rfl⟩
  | runTask i w =>
    obtain ⟨server, hserver, rfl⟩ := Option.map_eq_some_iff.mp h
    exact ⟨server, hserver, rfl⟩

/-- The completion handler does to the server what its event `accept` does, or
nothing. -/
theorem onAcceptDone_server (methods : SimpleMethodServer A W) (s : TcpServer A)
    (result : AcceptResult) :
    (s.onAcceptDone result).server = s.server ∨
      Server.step methods s.server .accept = some (s.onAcceptDone result).server := by
  cases result with
  | operationAborted => exact .inl rfl
  | failed message => exact .inl rfl
  | accepted peer =>
    cases peer with
    | stays => exact .inr rfl
    | gone => exact .inl rfl
    | leaves => exact .inl rfl

/-- **The server of a run is a run of the server**, so that what holds of every
server holds of one behind a `tcp_acceptor`. -/
theorem reachable_server (h : (machine methods).Reachable s) :
    (Server.machine methods).Reachable s.server := by
  apply h.invariant (I := fun s => (Server.machine methods).Reachable s.server)
    Machine.Reachable.init
  intro s e t hs ht
  cases e with
  | server e =>
    obtain ⟨server, hserver, rfl⟩ := step_server ht
    exact hs.step (e := e) hserver
  | acceptDone result =>
    simp only [machine, step] at ht
    split at ht
    · cases ht
    · cases ht
      rcases onAcceptDone_server methods { s with accepts := _ } result with hsame | hstep
      · rw [hsame]
        exact hs
      · exact hs.step (e := .accept) hstep

/-! ## How long the loop goes on -/

/-- One `async_accept` is outstanding, and no exception has left a handler. -/
structure Accepting (s : TcpServer A) : Prop where
  one : s.accepts = 1
  thrown : s.thrown = []

/-- The event is no completion that ends the loop. -/
def Event.Survives : Event W → Prop
  | .acceptDone .operationAborted => False
  | .acceptDone (.accepted peer) => peer = .stays
  | _ => True

/-- `on_accept` asks for the next connection, with or without a session. -/
theorem onAccept_spec (s : TcpServer A) (error : ErrorInfo) :
    (s.onAccept error).accepts = s.accepts + 1 ∧ (s.onAccept error).thrown = s.thrown := by
  unfold onAccept
  split <;> exact ⟨rfl, rfl⟩

/-- **The completion handler** asks for the next connection exactly if the loop
survives the completion. -/
theorem onAcceptDone_spec (s : TcpServer A) (result : AcceptResult) :
    (Event.Survives (.acceptDone result : Event W) →
      (s.onAcceptDone result).accepts = s.accepts + 1 ∧
        (s.onAcceptDone result).thrown = s.thrown) ∧
    (¬ Event.Survives (.acceptDone result : Event W) →
      (s.onAcceptDone result).accepts = s.accepts) := by
  cases result with
  | operationAborted => exact ⟨fun h => h.elim, fun _ => rfl⟩
  | failed message => exact ⟨fun _ => onAccept_spec s _, fun h => absurd trivial h⟩
  | accepted peer =>
    cases peer with
    | stays => exact ⟨fun _ => onAccept_spec s _, fun h => absurd rfl h⟩
    | gone => exact ⟨fun h => (nomatch h), fun _ => rfl⟩
    | leaves => exact ⟨fun h => (nomatch h), fun _ => rfl⟩

theorem accepting_step (h : s.Accepting) {e : Event W} (hs : step methods s e = some t) :
    t.Accepting ↔ e.Survives := by
  cases e with
  | server e =>
    obtain ⟨server, -, rfl⟩ := step_server hs
    exact ⟨fun _ => trivial, fun _ => ⟨h.one, h.thrown⟩⟩
  | acceptDone result =>
    have ht : t = ({ s with accepts := 0 }).onAcceptDone result := by
      simp only [step, h.one] at hs
      exact (Option.some.inj hs).symm
    obtain ⟨hsurvives, hends⟩ := onAcceptDone_spec (W := W) { s with accepts := 0 } result
    rw [ht]
    constructor
    · intro hacc
      by_contra hnot
      have hone := hacc.one
      rw [hends hnot] at hone
      cases hone
    · intro hev
      obtain ⟨haccepts, hthrown⟩ := hsurvives hev
      exact ⟨haccepts, hthrown.trans h.thrown⟩

/-- **The accept loop**: along a run without `operation_aborted` there is always
one `async_accept` outstanding, and no exception leaves its handler, exactly if
every accepted socket still has its peer both times it is asked for it. -/
theorem accepting_iff_peers_stay {es : List (Event W)}
    (hopen : .acceptDone .operationAborted ∉ es)
    (hr : (machine methods).run (machine methods).init es = some s) :
    (machine methods).EachState Accepting (machine methods).init es ↔
      ∀ peer, .acceptDone (.accepted peer) ∈ es → peer = .stays := by
  have hrun : (machine methods).EachState Accepting (machine methods).init es ↔
      (machine methods).EachStep (fun _ e => e.Survives) (machine methods).init es :=
    Machine.eachState_iff_eachStep (J := fun _ => True) (fun _ _ _ _ _ => trivial)
      (fun _ _ _ _ h hs => accepting_step h hs) trivial ⟨rfl, rfl⟩ hr
  rw [hrun, Machine.eachStep_iff_forall hr]
  constructor
  · intro h peer hmem
    exact h _ hmem
  · intro h e he
    cases e with
    | server e => trivial
    | acceptDone result =>
      cases result with
      | operationAborted => exact absurd he hopen
      | failed message => trivial
      | accepted peer => exact h peer he

def noMethods : SimpleMethodServer Unit Unit := ⟨∅⟩

/-- A failed accept, and then a peer that has gone before its socket is accepted. -/
def earlyReset : List (Event Unit) :=
  [.acceptDone (.failed "Too many open files"), .acceptDone (.accepted .gone)]

theorem accepting_iff_peers_stay_earlyReset :
    (machine noMethods).EachState Accepting
      (machine noMethods).init earlyReset ↔
      ∀ peer, .acceptDone (.accepted peer) ∈ earlyReset → peer = .stays := by
  have hall : ∀ s, (machine noMethods).run
      (machine noMethods).init earlyReset = some s →
      ((machine noMethods).EachState Accepting
        (machine noMethods).init earlyReset ↔
        ∀ peer, .acceptDone (.accepted peer) ∈ earlyReset → peer = .stays) :=
    fun s hs => accepting_iff_peers_stay (by simp [earlyReset]) hs
  exact hall _ rfl

/-- After the second completion no `async_accept` is outstanding, and
`std::system_error` has left the handler. -/
theorem gone_peer_ends_accepting :
    ∃ s, (machine noMethods).run
        (machine noMethods).init earlyReset = some s ∧
      s.accepts = 0 ∧ s.thrown = [.systemError] ∧ ¬ s.Accepting := by
  refine ⟨_, rfl, rfl, rfl, ?_⟩
  intro h
  cases h.one

end TcpServer

end MpRpc
