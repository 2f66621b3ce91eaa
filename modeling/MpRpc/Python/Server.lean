import MpRpc.Python.ClientResults
import MpRpc.Remote
import MpRpc.Server.Base

/-!
# Server — the server in Python

`python_server_helper` over `server_base`, with `SimpleMethodServer` as its message
processor. A message that is read is carried by a closure of the thread pool to
`async_process_message`, which submits it to an executor with one thread; the executor
processes the submitted messages in their order. `done_callback` is run by the executor,
or by the closure if the future is finished before the callback is added; so it is an
event of its own.

The message is unpacked by the executor only, so that neither a malformed message nor one
that ends early concerns the session. The session is not asked for its address.
-/

namespace MpRpc.Python

/-- A closure posted to the thread pool. -/
inductive PyTask where
  /-- calls `message_processor_` -/
  | process (session : Nat) (data : MessageData)
  /-- posted by `async_remove_session` -/
  | remove (session : Nat)

/-- The message that a closure carries. -/
def PyTask.message : PyTask → Option (Nat × MessageData)
  | .process session data => some (session, data)
  | .remove _ => none

/-- A future of the executor that is finished and whose `done_callback` has not run. -/
structure Finished (U : Type*) where
  session : Nat
  data : MessageData
  processed : PyProcessed U

/-- The state of the server, of the pool and of the executor. Sessions are numbered in the
order they are accepted. -/
structure PyServer (U : Type*) where
  sessions : List Nat := []
  accepted : Nat := 0
  /-- the session of every outstanding `async_read` -/
  reads : List Nat := []
  received : List (Nat × MessageData) := []
  tasks : List PyTask := []
  /-- the messages submitted to the executor -/
  queue : List (Nat × MessageData) := []
  finished : List (Finished U) := []
  /-- what became of the messages whose `done_callback` has run; a response is written on
  the session -/
  answered : List (Nat × Answer (PyInvocation U)) := []

namespace PyServer

variable {U W : Type*} {msgpack : MsgpackPackage} {str : PyException → Bytes}
  {server : SimpleMethodServer U W}

/-- What `on_execution` writes. -/
def responseOf (call : PyHandlerCall) : Option MessageData :=
  if call.error.isNone && call.hasResponse then some call.response else none

/-- What becomes of a message. -/
def answerOf (data : MessageData) (processed : PyProcessed U) : Answer (PyInvocation U) where
  message := data
  invocation := processed.invocation
  response := responseOf processed.call

/-- The session is in `sessions_`, or held by a closure or by the executor. -/
def alive (s : PyServer U) (session : Nat) : Bool :=
  session ∈ s.sessions ||
    s.tasks.any (fun
      | .process session' _ => session' = session
      | .remove session' => session' = session) ||
    s.queue.any (·.1 = session) || s.finished.any (·.session = session)

/-- `server_base::on_read` with `python_server_helper::async_process_message`. -/
def onRead (s : PyServer U) (session : Nat) (error : ErrorInfo) (data : MessageData) : PyServer U :=
  if error.hasError then { s with tasks := s.tasks ++ [.remove session] }
  else
    { s with
      received := s.received ++ [(session, data)]
      tasks := s.tasks ++ [.process session data]
      reads := s.reads ++ [session] }

inductive Event (W : Type*) where
  /-- `on_accept` with a session -/
  | accept
  /-- the outstanding read `i` completes -/
  | readDone (i : Nat) (error : ErrorInfo) (data : MessageData)
  /-- a worker takes the posted closure `i` -/
  | runTask (i : Nat)
  /-- the executor processes the next message -/
  | execute (w : W)
  /-- the `done_callback` of the finished future `i` runs -/
  | callback (i : Nat)

def step (msgpack : MsgpackPackage) (str : PyException → Bytes) (server : SimpleMethodServer U W)
    (s : PyServer U) : Event W → Option (PyServer U)
  | .accept =>
      some { s with
        sessions := s.sessions ++ [s.accepted]
        accepted := s.accepted + 1
        reads := s.reads ++ [s.accepted] }
  | .readDone i error data =>
      match s.reads[i]? with
      | none => none
      | some session =>
          let t := { s with reads := s.reads.eraseIdx i }
          if s.alive session then some (t.onRead session error data) else some t
  | .runTask i =>
      match s.tasks[i]? with
      | none => none
      | some (.process session data) =>
          some { s with tasks := s.tasks.eraseIdx i, queue := s.queue ++ [(session, data)] }
      | some (.remove session) =>
          some { s with tasks := s.tasks.eraseIdx i, sessions := s.sessions.erase session }
  | .execute w =>
      match s.queue with
      | [] => none
      | (session, data) :: queue =>
          some { s with
            queue
            finished := s.finished ++ [⟨session, data, server.processMessage msgpack str w data⟩] }
  | .callback i =>
      match s.finished[i]? with
      | none => none
      | some done =>
          some { s with
            finished := s.finished.eraseIdx i
            answered := s.answered ++ [(done.session, answerOf done.data done.processed)] }

/-- The server, from its construction. -/
def machine (msgpack : MsgpackPackage) (str : PyException → Bytes)
    (server : SimpleMethodServer U W) : Machine (PyServer U) (Event W) :=
  ⟨{}, step msgpack str server⟩

/-! ## Every message is accounted for -/

variable {s t : PyServer U}

/-- The messages that wait for a closure, for the executor or for their callback. -/
def waiting (s : PyServer U) : Multiset (Nat × MessageData) :=
  (s.tasks.filterMap PyTask.message : Multiset _) + (s.queue : Multiset _) +
    (s.finished.map fun done => (done.session, done.data) : Multiset _)

/-- The messages whose callback has run. -/
def processed (s : PyServer U) : Multiset (Nat × MessageData) :=
  (s.answered.map fun entry => (entry.1, entry.2.message) : Multiset _)

theorem waiting_of_tasks {session : Nat} {data : MessageData}
    (htasks : t.tasks = s.tasks ++ [.process session data]) (hqueue : t.queue = s.queue)
    (hfinished : t.finished = s.finished) : t.waiting = (session, data) ::ₘ s.waiting := by
  simp only [waiting, htasks, hqueue, hfinished, List.filterMap_append, ← Multiset.coe_add]
  show _ + ((session, data) ::ₘ 0) + _ + _ = _
  simp only [Multiset.add_cons, Multiset.cons_add, add_zero]

/-- A read completes: its session is still there and is read on, or nobody is left. -/
theorem step_readDone {i : Nat} {error : ErrorInfo} {data : MessageData}
    (hs : step msgpack str server s (.readDone i error data) = some t) :
    ∃ session, s.reads[i]? = some session ∧
      (s.alive session = true ∧
          t = onRead { s with reads := s.reads.eraseIdx i } session error data ∨
        s.alive session = false ∧ t = { s with reads := s.reads.eraseIdx i }) := by
  simp only [step] at hs
  split at hs
  · cases hs
  · rename_i session hsession
    refine ⟨session, hsession, ?_⟩
    cases halive : s.alive session with
    | true =>
      rw [halive] at hs
      cases hs
      exact .inl ⟨rfl, rfl⟩
    | false =>
      rw [halive] at hs
      cases hs
      exact .inr ⟨rfl, rfl⟩

/-- An error removes the session. -/
theorem onRead_of_error (i session : Nat) {error : ErrorInfo} (data : MessageData)
    (herror : error.hasError = true) :
    onRead { s with reads := s.reads.eraseIdx i } session error data =
      { s with reads := s.reads.eraseIdx i, tasks := s.tasks ++ [.remove session] } := by
  simp [onRead, herror]

/-- A message is read: its closure is posted, and the session is read on. -/
theorem onRead_of_ok (i session : Nat) {error : ErrorInfo} (data : MessageData)
    (herror : error.hasError = false) :
    onRead { s with reads := s.reads.eraseIdx i } session error data =
      { s with
        reads := s.reads.eraseIdx i ++ [session]
        received := s.received ++ [(session, data)]
        tasks := s.tasks ++ [.process session data] } := by
  simp [onRead, herror]

/-- **What one event does to the messages**: one is received, one is answered, or they
move. -/
theorem step_cases {e : Event W} (hs : step msgpack str server s e = some t) :
    (∃ i error data session, e = .readDone i error data ∧ s.reads[i]? = some session ∧
        error.hasError = false ∧ t.received = s.received ++ [(session, data)] ∧
        t.waiting = (session, data) ::ₘ s.waiting ∧ t.answered = s.answered ∧
        t.finished = s.finished) ∨
      (∃ i done, e = .callback i ∧ s.finished[i]? = some done ∧ t.received = s.received ∧
        s.waiting = (done.session, done.data) ::ₘ t.waiting ∧
        t.answered = s.answered ++ [(done.session, answerOf done.data done.processed)] ∧
        t.finished = s.finished.eraseIdx i) ∨
      t.received = s.received ∧ t.waiting = s.waiting ∧ t.answered = s.answered ∧
        (t.finished = s.finished ∨ ∃ session data w,
          t.finished =
            s.finished ++ [⟨session, data, server.processMessage msgpack str w data⟩]) := by
  cases e with
  | accept =>
    cases hs
    exact .inr (.inr ⟨rfl, rfl, rfl, .inl rfl⟩)
  | readDone i error data =>
    obtain ⟨session, hi, ⟨-, rfl⟩ | ⟨-, rfl⟩⟩ := step_readDone hs
    · cases herror : error.hasError with
      | true =>
        rw [onRead_of_error i session data herror]
        refine .inr (.inr ⟨rfl, ?_, rfl, .inl rfl⟩)
        have hnone : [PyTask.remove session].filterMap PyTask.message = [] := rfl
        simp only [waiting, List.filterMap_append, hnone, List.append_nil]
      | false =>
        rw [onRead_of_ok i session data herror]
        exact .inl ⟨i, error, data, session, rfl, hi, herror, rfl,
          waiting_of_tasks rfl rfl rfl, rfl, rfl⟩
    · exact .inr (.inr ⟨rfl, rfl, rfl, .inl rfl⟩)
  | runTask i =>
    simp only [step] at hs
    split at hs
    · cases hs
    · rename_i session data hi
      cases hs
      refine .inr (.inr ⟨rfl, ?_, rfl, .inl rfl⟩)
      have hperm : ((session, data) :: (s.tasks.eraseIdx i).filterMap PyTask.message).Perm
          (s.tasks.filterMap PyTask.message) := (perm_cons_eraseIdx hi).filterMap PyTask.message
      simp only [waiting, ← Multiset.coe_eq_coe.mpr hperm, ← Multiset.coe_add,
        ← Multiset.cons_coe, ← Multiset.singleton_add]
      abel
    · rename_i session hi
      cases hs
      refine .inr (.inr ⟨rfl, ?_, rfl, .inl rfl⟩)
      have hperm : ((s.tasks.eraseIdx i).filterMap PyTask.message).Perm
          (s.tasks.filterMap PyTask.message) := (perm_cons_eraseIdx hi).filterMap PyTask.message
      simp only [waiting, Multiset.coe_eq_coe.mpr hperm]
  | execute w =>
    simp only [step] at hs
    split at hs
    · cases hs
    · rename_i session data queue hq
      cases hs
      refine .inr (.inr ⟨rfl, ?_, rfl, .inr ⟨session, data, w, rfl⟩⟩)
      simp only [waiting, hq, List.map_append, List.map_cons, List.map_nil, ← Multiset.coe_add,
        ← Multiset.cons_coe, Multiset.coe_nil, Multiset.add_cons, Multiset.cons_add, add_zero]
  | callback i =>
    simp only [step] at hs
    split at hs
    · cases hs
    · rename_i done hi
      cases hs
      refine .inr (.inl ⟨i, done, rfl, hi, rfl, ?_, rfl, rfl⟩)
      have hperm := (perm_cons_eraseIdx hi).map fun done : Finished U => (done.session, done.data)
      simp only [waiting, ← Multiset.coe_eq_coe.mpr hperm, List.map_cons, ← Multiset.cons_coe,
        Multiset.add_cons]

/-- A message is processed by this. -/
def Serves (msgpack : MsgpackPackage) (str : PyException → Bytes) (server : SimpleMethodServer U W)
    (data : MessageData) (answer : Answer (PyInvocation U)) : Prop :=
  ∃ w, answer = answerOf data (server.processMessage msgpack str w data)

/-- The executor has processed every message whose callback is due. -/
def Executed (msgpack : MsgpackPackage) (str : PyException → Bytes)
    (server : SimpleMethodServer U W) (s : PyServer U) : Prop :=
  ∀ done ∈ s.finished, ∃ w, done.processed = server.processMessage msgpack str w done.data

theorem Executed.step {e : Event W} (h : s.Executed msgpack str server)
    (hs : step msgpack str server s e = some t) : t.Executed msgpack str server := by
  intro done hdone
  rcases step_cases hs with ⟨i, error, data, session, -, -, -, -, -, -, hfinished⟩ |
    ⟨i, done', -, -, -, -, -, hfinished⟩ | ⟨-, -, -, hfinished | ⟨session, data, w, hfinished⟩⟩
  · rw [hfinished] at hdone
    exact h done hdone
  · rw [hfinished] at hdone
    exact h done (List.mem_of_mem_eraseIdx hdone)
  · rw [hfinished] at hdone
    exact h done hdone
  · rw [hfinished] at hdone
    rcases List.mem_append.mp hdone with hdone | hdone
    · exact h done hdone
    · cases List.mem_singleton.mp hdone
      exact ⟨w, rfl⟩

/-- A due callback gives what became of its message. -/
theorem Executed.serves (h : s.Executed msgpack str server) {i : Nat} {done : Finished U}
    (hi : s.finished[i]? = some done) :
    Serves msgpack str server done.data (answerOf done.data done.processed) := by
  obtain ⟨w, hw⟩ := h done (List.mem_of_getElem? hi)
  exact ⟨w, by rw [hw]⟩

structure Inv (msgpack : MsgpackPackage) (str : PyException → Bytes)
    (server : SimpleMethodServer U W) (s : PyServer U) : Prop where
  executed : s.Executed msgpack str server
  kept : (s.received : Multiset (Nat × MessageData)) = s.waiting + s.processed
  serves : ∀ session answer, (session, answer) ∈ s.answered →
    Serves msgpack str server answer.message answer

theorem Inv.step {e : Event W} (h : s.Inv msgpack str server)
    (hs : step msgpack str server s e = some t) : t.Inv msgpack str server := by
  have hexecuted := h.executed.step hs
  rcases step_cases hs with
    ⟨i, error, data, session, -, -, -, hreceived, hwaiting, hanswered, -⟩ |
    ⟨i, done, -, hi, hreceived, hwaiting, hanswered, -⟩ | ⟨hreceived, hwaiting, hanswered, -⟩
  · refine ⟨hexecuted, ?_, ?_⟩
    · rw [processed, hanswered, hreceived, hwaiting, Multiset.cons_add, ← processed, ← h.kept,
        ← Multiset.coe_add, Multiset.coe_singleton, Multiset.add_comm, Multiset.singleton_add]
    · rw [hanswered]
      exact h.serves
  · refine ⟨hexecuted, ?_, ?_⟩
    · have hprocessed : t.processed = (done.session, done.data) ::ₘ s.processed := by
        simp [processed, hanswered, answerOf, ← Multiset.coe_add, Multiset.add_comm]
      rw [hreceived, h.kept, hwaiting, hprocessed, Multiset.add_cons, Multiset.cons_add]
    · intro session answer hmem
      rw [hanswered] at hmem
      rcases List.mem_append.mp hmem with hmem | hmem
      · exact h.serves session answer hmem
      · cases List.mem_singleton.mp hmem
        exact h.executed.serves hi
  · refine ⟨hexecuted, ?_, ?_⟩
    · rw [processed, hanswered, hreceived, hwaiting, ← processed, h.kept]
    · rw [hanswered]
      exact h.serves

theorem reachable_inv (hs : (machine msgpack str server).Reachable s) :
    s.Inv msgpack str server := by
  refine hs.invariant ⟨?_, rfl, ?_⟩ fun s e t h hstep => h.step hstep
  · intro done hdone
    cases hdone
  · intro session answer hmem
    cases hmem

/-! ## What a peer gets -/

/-- The error and the result that a request is answered with. -/
def reply (msgpack : MsgpackPackage) (str : PyException → Bytes) (server : SimpleMethodServer U W)
    (w : W) (msgid : PyObject) (method : Bytes) (params : List PyObject) : PyObject × PyObject :=
  match server.methods.lookup method with
  | none => (.str (SimpleMethodServer.notFoundText method), .none)
  | some m =>
      match m.execute msgpack w msgid params with
      | .error err => (.str (str err), .none)
      | .ok result => (.none, result)

/-- The call of the user's function that a request makes. -/
def invocation (msgpack : MsgpackPackage) (str : PyException → Bytes)
    (server : SimpleMethodServer U W) (w : W) (msgid : PyObject) (method : Bytes)
    (params : List PyObject) : Option (PyInvocation U) :=
  (server.methods.lookup method).bind fun m => (m.processRequest msgpack str w msgid params).1

/-- A response that was packed is written. -/
theorem responseOf_doneCallback (o : PyObject) :
    responseOf (SimpleMethodServer.doneCallback ((packObject msgpack o).map some)) =
      msgpack.packb o := by
  unfold packObject
  cases msgpack.packb o <;> rfl

theorem answerOf_request (str : PyException → Bytes) (server : SimpleMethodServer U W) (w : W)
    {data : MessageData} {object msgid : PyObject} {method : Bytes} {params : List PyObject}
    (hobject : msgpack.unpackb data = some object)
    (hvalid : validateMessage object = .ok (.request msgid method params)) :
    answerOf data (server.processMessage msgpack str w data) =
      { message := data
        invocation := invocation msgpack str server w msgid method params
        response := msgpack.packb (packResponse msgid
          (reply msgpack str server w msgid method params).1
          (reply msgpack str server w msgid method params).2) } := by
  simp only [answerOf, SimpleMethodServer.processMessage, unpackObject, hobject, hvalid, reply,
    invocation]
  cases hm : server.methods.lookup method with
  | none => simp only [responseOf_doneCallback, Option.bind_none]
  | some m =>
    simp only [m.processRequest_response, Option.bind_some]
    cases m.execute msgpack w msgid params with
    | error err => simp only [responseOf_doneCallback]
    | ok result => simp only [responseOf_doneCallback]

/-- Only a request has a response. -/
theorem of_responseOf {data response : MessageData} {w : W}
    (h : responseOf (server.processMessage msgpack str w data).call = some response) :
    ∃ object msgid method params, msgpack.unpackb data = some object ∧
      validateMessage object = .ok (.request msgid method params) := by
  have herror : ∀ err, responseOf (SimpleMethodServer.doneCallback (.error err)) = none :=
    fun _ => rfl
  have hnone : responseOf (SimpleMethodServer.doneCallback (.ok none)) = none := rfl
  unfold SimpleMethodServer.processMessage unpackObject at h
  cases hobject : msgpack.unpackb data with
  | none => simp [hobject, herror] at h
  | some object =>
    simp only [hobject] at h
    cases hvalid : validateMessage object with
    | error err => simp [hvalid, herror] at h
    | ok msg =>
      simp only [hvalid] at h
      cases msg with
      | request msgid method params => exact ⟨object, msgid, method, params, rfl, hvalid⟩
      | response msgid error result => simp [herror] at h
      | notification method params =>
        cases hm : server.methods.lookup method with
        | none => simp [hm, hnone] at h
        | some m => simp [hm, hnone] at h

/-- What became of a message is what its kind asks for. -/
structure Answered (msgpack : MsgpackPackage) (str : PyException → Bytes)
    (server : SimpleMethodServer U W) (answer : Answer (PyInvocation U)) : Prop where
  /-- A request is answered under its msgid, also if there is no such method, unless the
  response cannot be packed. -/
  request : ∀ object msgid method params, msgpack.unpackb answer.message = some object →
    validateMessage object = .ok (.request msgid method params) →
    ∃ w, answer.response = msgpack.packb (packResponse msgid
        (reply msgpack str server w msgid method params).1
        (reply msgpack str server w msgid method params).2) ∧
      answer.invocation = invocation msgpack str server w msgid method params
  /-- Nothing else has a response. -/
  other : ∀ response, answer.response = some response →
    ∃ object msgid method params, msgpack.unpackb answer.message = some object ∧
      validateMessage object = .ok (.request msgid method params)

theorem Serves.answered {data : MessageData} {answer : Answer (PyInvocation U)}
    (h : Serves msgpack str server data answer) : Answered msgpack str server answer := by
  obtain ⟨w, rfl⟩ := h
  refine ⟨?_, fun response hresponse => of_responseOf hresponse⟩
  intro object msgid method params (hobject : msgpack.unpackb data = some object) hvalid
  rw [answerOf_request str server w hobject hvalid]
  exact ⟨w, rfl, rfl⟩

/-- Two peers ask for a method that raises and for one that does not exist; the callbacks
run in the other order. -/
def twoPeers : List (Event Unit) :=
  [.accept, .accept, .readDone 1 {} (packRequest 7 (ascii "none") []),
    .readDone 0 {} (packRequest 7 (ascii "fail") []), .runTask 0, .runTask 0, .execute (),
    .execute (), .callback 1, .callback 0]

/-- The session that a closure removes. -/
def removed : PyTask → Option Nat
  | .process .. => none
  | .remove session => some session

/-- The part of the server that is `server_base`. -/
def base (s : PyServer U) : ServerBase := ⟨s.sessions, s.reads, s.tasks.filterMap removed⟩

/-- The read that an event completes. -/
def Event.read : Event W → Option (Nat × ErrorInfo)
  | .readDone i error _ => some (i, error)
  | _ => none

/-- What an event that leads to `t` gives to the peer of session `k`. -/
def given (k : Nat) (s t : PyServer U) : Option (Answer (PyInvocation U)) :=
  ((t.answered.drop s.answered.length).find? (·.1 = k)).map Prod.snd

def host (msgpack : MsgpackPackage) (str : PyException → Bytes) (server : SimpleMethodServer U W)
    (k : Nat) : ServerBase.Host (PyServer U) (Event W) (Answer (PyInvocation U)) where
  machine := machine msgpack str server
  base := base
  readDone i data := .readDone i {} data
  read := Event.read
  given s _ t := given k s t

/-- The server as the peer of session `k` sees it. -/
def relay (msgpack : MsgpackPackage) (str : PyException → Bytes) (server : SimpleMethodServer U W)
    (k : Nat) : Relay (PyServer U) (Event W) MessageData (Answer (PyInvocation U)) :=
  (host msgpack str server k).relay k

variable {k : Nat}

theorem relay_put {data : MessageData} (hs : (relay msgpack str server k).put s data = some t) :
    ∃ i, s.reads[i]? = some k ∧ step msgpack str server s (.readDone i {} data) = some t :=
  ServerBase.Host.relay_put hs

theorem relay_step {e : Event W} {out : Option (Answer (PyInvocation U))}
    (hs : (relay msgpack str server k).step s e = some (t, out)) :
    ¬ s.base.FromPeer k e.read ∧ step msgpack str server s e = some t ∧ out = given k s t :=
  ServerBase.Host.relay_step hs

def ofSession (k : Nat) (p : Nat × MessageData) : Option MessageData :=
  if p.1 = k then some p.2 else none

/-- The messages of session `k` that wait. -/
def backlog (k : Nat) (s : PyServer U) : Multiset MessageData := s.waiting.filterMap (ofSession k)

/-- What one event does to the messages of a session. -/
theorem backlog_step {e : Event W} (hexecuted : s.Executed msgpack str server)
    (hs : step msgpack str server s e = some t) :
    (∃ i error data, e = .readDone i error data ∧ s.reads[i]? = some k ∧
        error.hasError = false ∧ t.backlog k = data ::ₘ s.backlog k ∧ given k s t = none) ∨
      (∃ data answer, s.backlog k = data ::ₘ t.backlog k ∧ given k s t = some answer ∧
        Serves msgpack str server data answer) ∨
      t.backlog k = s.backlog k ∧ given k s t = none := by
  rcases step_cases hs with
    ⟨i, error, data, session, rfl, hi, herror, -, hwaiting, hanswered, -⟩ |
    ⟨i, done, -, hi, -, hwaiting, hanswered, -⟩ | ⟨-, hwaiting, hanswered, -⟩
  · have hgiven : given k s t = none := by simp [given, hanswered]
    by_cases hk : session = k
    · have hown : ofSession k (session, data) = some data := if_pos hk
      refine .inl ⟨i, error, data, rfl, hk ▸ hi, herror, ?_, hgiven⟩
      rw [backlog, hwaiting, Multiset.filterMap_cons_some _ _ _ hown, ← backlog]
    · have hother : ofSession k (session, data) = none := if_neg hk
      refine .inr (.inr ⟨?_, hgiven⟩)
      rw [backlog, hwaiting, Multiset.filterMap_cons_none _ _ hother, ← backlog]
  · by_cases hk : done.session = k
    · have hown : ofSession k (done.session, done.data) = some done.data := if_pos hk
      refine .inr (.inl ⟨done.data, _, ?_, ?_, hexecuted.serves hi⟩)
      · rw [backlog, hwaiting, Multiset.filterMap_cons_some _ _ _ hown, ← backlog]
      · simp [given, hanswered, hk]
    · have hother : ofSession k (done.session, done.data) = none := if_neg hk
      refine .inr (.inr ⟨?_, ?_⟩)
      · rw [backlog, backlog, hwaiting, Multiset.filterMap_cons_none _ _ hother]
      · simp [given, hanswered, hk]
  · refine .inr (.inr ⟨?_, ?_⟩)
    · rw [backlog, hwaiting, ← backlog]
    · simp [given, hanswered]

/-- **What a move of the relay does** to the messages that wait: one of them is answered,
or they go on waiting. -/
theorem backlog_move {e : Event W} {out : Option (Answer (PyInvocation U))}
    (hexecuted : s.Executed msgpack str server)
    (hs : (relay msgpack str server k).step s e = some (t, out)) :
    t.Executed msgpack str server ∧ (out = none ∧ t.backlog k = s.backlog k ∨
      ∃ data answer, out = some answer ∧ Serves msgpack str server data answer ∧
        s.backlog k = data ::ₘ t.backlog k) := by
  obtain ⟨hpeer, hu, rfl⟩ := relay_step hs
  refine ⟨hexecuted.step hu, ?_⟩
  rcases backlog_step (k := k) hexecuted hu with
    ⟨i, error, data, rfl, hi, herror, -, -⟩ | ⟨data, answer, hback, hgiven, hserves⟩ |
      ⟨hback, hgiven⟩
  · exact absurd ⟨hi, herror⟩ hpeer
  · exact .inr ⟨data, answer, hgiven, hserves, hback⟩
  · exact .inl ⟨hgiven, hback⟩

/-- **A message of the peer is read**: it waits, or the session is gone. -/
theorem backlog_put {data : MessageData} (hexecuted : s.Executed msgpack str server)
    (hs : (relay msgpack str server k).put s data = some t) :
    t.Executed msgpack str server ∧ t.backlog k ≤ data ::ₘ s.backlog k := by
  obtain ⟨i, -, hs⟩ := relay_put hs
  refine ⟨hexecuted.step hs, ?_⟩
  rcases backlog_step (k := k) hexecuted hs with
    ⟨i', error, data', he, -, -, hback, -⟩ | ⟨data', answer, hback, -, -⟩ | ⟨hback, -⟩
  · cases he
    exact hback.le
  · rw [hback, Multiset.cons_swap]
    exact (Multiset.le_cons_self _ data).trans (Multiset.le_cons_self _ data')
  · rw [hback]
    exact Multiset.le_cons_self _ data

/-- **The ledger of a session**: every answer is that to one message of the peer, and each
message has one at most. -/
def ledger (msgpack : MsgpackPackage) (str : PyException → Bytes)
    (server : SimpleMethodServer U W) (k : Nat) :
    (relay msgpack str server k).Ledger (fun _ => True) Relay.AnyMove (Serves msgpack str server)
      (fun _ => False) :=
  .ofBacklog (Executed msgpack str server) (backlog k) True ⟨nofun, rfl⟩
    (fun h _ hs => (backlog_put h hs).imp_right fun hle => ⟨hle, absurd trivial⟩)
    (fun h _ hs => backlog_move h hs)

/-! ## While nothing fails -/

/-- **What an event does to `server_base`.** -/
theorem move_of_step {e : Event W} (hs : step msgpack str server s e = some t) :
    s.base.Move (s.base.sessionRead e.read) t.base := by
  cases e with
  | accept =>
    cases hs
    exact .accept s.accepted
  | readDone i error data =>
    obtain ⟨session, hi, hcases⟩ := step_readDone hs
    have hread : s.base.sessionRead (Event.readDone (W := W) i error data).read = some session := hi
    have hbase : ∃ again removed, t.base = { s.base with
        reads := s.base.reads.eraseIdx i ++ again, removals := s.base.removals ++ removed } ∧
        (∀ x ∈ again, x = session) ∧ ∀ x ∈ removed, x = session := by
      rcases hcases with ⟨-, rfl⟩ | ⟨-, rfl⟩
      · cases herror : error.hasError with
        | true => exact ⟨[], [session], by simp [base, onRead_of_error, herror, removed], by simp⟩
        | false => exact ⟨[session], [], by simp [base, onRead_of_ok, herror, removed], by simp⟩
      · exact ⟨[], [], by simp [base], by simp⟩
    obtain ⟨again, removed, hbase, hagain, hremoved⟩ := hbase
    rw [hread, hbase]
    exact .read hi hagain hremoved
  | runTask i =>
    have hremovals : ∀ x ∈ (s.tasks.eraseIdx i).filterMap removed, x ∈ s.tasks.filterMap removed :=
      ((List.eraseIdx_sublist s.tasks i).filterMap removed).subset
    simp only [PyServer.step] at hs
    split at hs
    · cases hs
    · cases hs
      exact .run hremovals
    · rename_i session hi
      cases hs
      exact .remove (List.mem_filterMap.mpr ⟨_, List.mem_of_getElem? hi, rfl⟩) hremovals
  | execute w =>
    simp only [PyServer.step] at hs
    split at hs
    · cases hs
    · cases hs
      exact .run fun _ h => h
  | callback i =>
    simp only [PyServer.step] at hs
    split at hs
    · cases hs
    · cases hs
      exact .run fun _ h => h

/-- The reads of session `k` do not fail. -/
def Undisturbed (k : Nat) (s : PyServer U) (e : Event W) : Prop :=
  s.base.sessionRead e.read ≠ some k

instance (k : Nat) (s : PyServer U) : DecidablePred (Undisturbed (W := W) k s) :=
  fun e => inferInstanceAs (Decidable (s.base.sessionRead e.read ≠ some k))

/-- While session `k` is read it is not going to be removed. -/
structure Steady (msgpack : MsgpackPackage) (str : PyException → Bytes)
    (server : SimpleMethodServer U W) (k : Nat) (s : PyServer U) : Prop where
  executed : s.Executed msgpack str server
  intact : s.base.Intact k

/-- **A message of the peer waits for its closure.** -/
theorem Steady.put (h : s.Steady msgpack str server k) {data : MessageData}
    (hs : (relay msgpack str server k).put s data = some t) :
    t.Steady msgpack str server k ∧ t.backlog k = data ::ₘ s.backlog k := by
  have hexecuted := (backlog_put h.executed hs).1
  obtain ⟨i, hi, hs⟩ := relay_put hs
  have hin : k ∈ s.sessions := h.intact.session (List.mem_of_getElem? hi)
  obtain ⟨session, hsession, ⟨-, ht⟩ | ⟨hgone, -⟩⟩ := step_readDone hs
  · cases hi.symm.trans hsession
    rw [onRead_of_ok i k data ErrorInfo.hasError_default] at ht
    have hbase : t.base = { s.base with reads := s.base.reads.eraseIdx i ++ [k] } := by
      simp [ht, base, removed]
    have hwaiting : t.waiting = (k, data) ::ₘ s.waiting := by
      rw [ht]
      exact waiting_of_tasks rfl rfl rfl
    have hown : ofSession k (k, data) = some data := if_pos rfl
    refine ⟨⟨hexecuted, hbase ▸ h.intact.readOn hi [k]⟩, ?_⟩
    rw [backlog, hwaiting, Multiset.filterMap_cons_some _ _ _ hown, ← backlog]
  · cases hi.symm.trans hsession
    simp [alive, hin] at hgone

/-- **The tally of a session** that is not disturbed: every message of the peer is
processed, once none is waiting. -/
def tally (msgpack : MsgpackPackage) (str : PyException → Bytes)
    (server : SimpleMethodServer U W) (k : Nat) :
    (relay msgpack str server k).Tally (fun _ => True) (Undisturbed k) (Serves msgpack str server)
      (fun s => s.backlog k = 0) :=
  .ofBacklog (Steady msgpack str server k) (backlog k) ⟨⟨nofun, nofun, nofun⟩, rfl⟩
    (fun h _ hs => h.put hs)
    (by
      intro s t e out h he hs
      obtain ⟨hexecuted, hcases⟩ := backlog_move h.executed hs
      exact ⟨⟨hexecuted, h.intact.move (move_of_step (relay_step hs).2.1) he⟩,
        hcases⟩)

end PyServer

end MpRpc.Python
