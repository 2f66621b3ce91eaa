import MpRpc.Server.Session
import MpRpc.Udp.Link
import MpRpc.Udp.Server

/-!
# Session — a UDP server, seen by one of its peers

Every datagram gets a session of its own, with the sender as its endpoint; the response is
sent to the endpoint of the session. So what a peer gets for a datagram depends on the
endpoint being that of the datagram, while the strand handles other datagrams and the
workers run the closures of other sessions.
-/

namespace MpRpc.Udp

variable {A W E : Type*}

/-! ## The messages that wait -/

/-- The session of a message, and the message. -/
def taskEntry : Task → Option (Nat × MessageData)
  | .process _ session msg => some (session, msg.msgData)
  | .remove _ => none

/-- The message that the handler on the strand is at; a session is numbered when it is
accepted. -/
def AcceptPhase.entry (accepted : Nat) : AcceptPhase → Multiset (Nat × MessageData)
  | .accepting data => {(accepted, data)}
  | .reading session error data => if error.hasError then 0 else {(session, data)}
  | _ => 0

/-- The sessions that are still to be numbered. -/
def AcceptPhase.ahead : AcceptPhase → Nat
  | .accepting _ => 1
  | _ => 0

namespace UdpServer

variable {s t : UdpServer A} {methods : SimpleMethodServer A W}
  {parse : Bytes → Except ErrorInfo MessageData}

/-- The messages that wait for the strand or for a worker, with their sessions. -/
def waiting (s : UdpServer A) : Multiset (Nat × MessageData) :=
  s.phase.entry s.server.accepted + (s.server.tasks.filterMap taskEntry : Multiset _)

/-- The sessions of the datagrams so far. -/
def numbered (s : UdpServer A) : Nat := s.server.accepted + s.phase.ahead

/-- A closure for a message was posted for the bytes of that message. -/
def Faithful (s : UdpServer A) : Prop :=
  ∀ origin session msg, Task.process origin session msg ∈ s.server.tasks →
    Message.ofData msg.msgData = .ok msg

/-- The closures are the same, or there is one more that is not for a message. -/
theorem Faithful.of_tasks (h : s.Faithful) (tasks : List Task)
    (htasks : t.server.tasks = s.server.tasks ++ tasks)
    (hnew : ∀ origin session msg, Task.process origin session msg ∈ tasks →
      Message.ofData msg.msgData = .ok msg) : t.Faithful := by
  intro origin session msg hmem
  rw [htasks] at hmem
  rcases List.mem_append.mp hmem with hmem | hmem
  · exact h origin session msg hmem
  · exact hnew origin session msg hmem

theorem Faithful.erase (h : s.Faithful) {i : Nat}
    (htasks : t.server.tasks = s.server.tasks.eraseIdx i) : t.Faithful := by
  intro origin session msg hmem
  rw [htasks] at hmem
  exact h origin session msg (List.mem_of_mem_eraseIdx hmem)

/-- `udp_session::async_read` gives the message, or an error if it is empty. -/
theorem entry_asyncRead (accepted session : Nat) (data : MessageData) :
    (asyncRead session data).entry accepted ≤ {(session, data)} ∧
      (asyncRead session data).ahead = 0 := by
  unfold asyncRead
  split
  · exact ⟨Multiset.zero_le _, rfl⟩
  · exact ⟨le_refl _, rfl⟩

theorem entry_asyncRead_nil (accepted session : Nat) :
    (asyncRead session []).entry accepted = 0 := rfl

theorem filterMap_post (tasks : List Task) (task : Task) :
    ((tasks ++ [task]).filterMap taskEntry : Multiset (Nat × MessageData)) =
      ((taskEntry task).toList : Multiset _) + (tasks.filterMap taskEntry : Multiset _) := by
  rw [List.filterMap_append, ← Multiset.coe_add, Multiset.add_comm]
  rfl

/-- Messages move from the strand to the pool, or are dropped. -/
structure Moves (s t : UdpServer A) : Prop where
  waiting : t.waiting ≤ s.waiting
  numbered : t.numbered = s.numbered
  faithful : s.Faithful → t.Faithful

/-- **`async_process_message`** posts a closure for the message, or drops it. -/
theorem moves_process {session : Nat} {error : ErrorInfo} {data : MessageData}
    (hphase : s.phase = .reading session error data) (herror : error.hasError = false) :
    Moves s (s.process session data) := by
  have hwaiting :
      s.waiting = {(session, data)} + (s.server.tasks.filterMap taskEntry : Multiset _) := by
    simp [waiting, hphase, AcceptPhase.entry, herror]
  have hnumbered : s.numbered = s.server.accepted := by simp [numbered, hphase, AcceptPhase.ahead]
  -- no closure for a message is posted
  have hdrop : ∀ {t : UdpServer A} (tasks : List Task),
      t.server.tasks = s.server.tasks ++ tasks → tasks.filterMap taskEntry = [] →
      t.phase.entry t.server.accepted = 0 → t.numbered = s.server.accepted → Moves s t := by
    intro t tasks htasks hnone hentry hahead
    refine ⟨?_, hahead.trans hnumbered.symm, fun h => h.of_tasks tasks htasks ?_⟩
    · rw [hwaiting, waiting, hentry, htasks, List.filterMap_append, hnone, List.append_nil,
        zero_add]
      exact Multiset.le_add_left _ _
    · intro origin session msg hmem
      have hentry := List.filterMap_eq_nil_iff.mp hnone _ hmem
      cases hentry
  unfold process
  simp only [Server.asyncProcessMessage]
  cases hread : Message.ofData data with
  | ok msg =>
    have hdata := Message.msgData_ofData hread
    refine ⟨?_, hnumbered.symm, fun h => h.of_tasks _ rfl ?_⟩
    · show (asyncRead session []).entry _ +
          ((s.server.tasks ++ [Task.process _ session msg]).filterMap taskEntry : Multiset _) ≤ _
      rw [entry_asyncRead_nil, filterMap_post, zero_add, hwaiting, ← hdata]
      exact le_refl _
    · intro origin session' msg' hmem
      cases List.mem_singleton.mp hmem
      rw [hdata, hread]
  | error ex =>
    cases ex with
    | exception info => exact hdrop [.remove session] rfl rfl rfl rfl
    | insufficientBytes | outOfRange | systemError =>
      exact hdrop [] (List.append_nil _).symm rfl rfl rfl

/-- **The handler on the strand goes on.** -/
theorem moves_advance (hs : s.advance = some t) : Moves s t := by
  unfold advance at hs
  cases hphase : s.phase with
  | idle => simp [hphase] at hs
  | accepting data =>
    simp only [hphase] at hs
    cases hs
    obtain ⟨hentry, hahead⟩ :=
      entry_asyncRead (s.server.accepted + 1) s.server.accepted data
    refine ⟨?_, ?_, id⟩
    · simp only [waiting, hphase]
      exact Multiset.add_le_add_right hentry
    · simp only [numbered, hphase, hahead]
      rfl
  | reading session error data =>
    simp only [hphase] at hs
    by_cases herror : error.hasError
    · rw [if_pos herror] at hs
      cases hs
      refine ⟨?_, ?_, fun h => h.of_tasks [.remove session] rfl ?_⟩
      · show (0 : Multiset (Nat × MessageData)) +
          ((s.server.tasks ++ [Task.remove session]).filterMap taskEntry : Multiset _) ≤ _
        rw [filterMap_post]
        simp [waiting, taskEntry]
      · simp [numbered, hphase, AcceptPhase.ahead, Server.asyncRemoveSession, Server.post]
      · intro origin session' msg hmem
        cases List.mem_singleton.mp hmem
    · rw [if_neg herror] at hs
      cases hs
      exact moves_process hphase (by simpa using herror)
  | rearming =>
    simp only [hphase] at hs
    cases hs
    refine ⟨?_, ?_, id⟩
    · simp [waiting, doAccept, hphase, AcceptPhase.entry]
    · simp [numbered, doAccept, hphase, AcceptPhase.ahead]

/-- **A receive completes**: the handler of a message starts, or nothing is to be done. -/
theorem step_receive {received : Received E}
    (hs : step methods parse s (.receive received) = some t) :
    (∃ arguments, onRead parse received = some arguments ∧ arguments.error.hasError = false ∧
        t.server = s.server ∧ t.waiting = (s.numbered, arguments.data) ::ₘ s.waiting ∧
        t.numbered = s.numbered + 1) ∨
      Moves s t ∧ ∀ arguments, onRead parse received = some arguments →
        arguments.error.hasError = true := by
  simp only [step] at hs
  split at hs
  · rename_i n hphase hreceives
    cases hs
    have hidle : s.waiting = (s.server.tasks.filterMap taskEntry : Multiset _) ∧
        s.numbered = s.server.accepted := by
      simp [waiting, numbered, hphase, AcceptPhase.entry, AcceptPhase.ahead]
    -- without a message the strand only re-arms
    have hrearm : ∀ {t : UdpServer A}, t.server = s.server →
        t.phase = .idle ∨ t.phase = .rearming → Moves s t := by
      intro t hserver hphase'
      have hentry : t.phase.entry t.server.accepted = 0 ∧ t.phase.ahead = 0 := by
        rcases hphase' with h | h <;> rw [h] <;> exact ⟨rfl, rfl⟩
      refine ⟨?_, ?_, ?_⟩
      · rw [hidle.1, waiting, hentry.1, hserver, zero_add]
      · rw [hidle.2, numbered, hentry.2, hserver, add_zero]
      · intro h
        exact h.of_tasks [] (by rw [hserver, List.append_nil]) (by simp)
    unfold onReceiveDone
    cases hread : onRead parse received with
    | none => exact .inr ⟨hrearm rfl (.inl hphase), by rintro arguments ⟨⟩⟩
    | some arguments =>
      simp only [onReceive]
      cases herror : arguments.error.hasError with
      | true =>
        refine .inr ⟨hrearm rfl (.inr rfl), ?_⟩
        intro arguments' heq
        cases heq
        exact herror
      | false =>
        refine .inl ⟨arguments, rfl, herror, rfl, ?_, ?_⟩
        · rw [hidle.1, hidle.2]
          exact Multiset.singleton_add _ _
        · rw [hidle.2]
          rfl
  · cases hs

/-- **What one event does to the messages**, other than a datagram: a worker takes one, or
they move. -/
theorem step_moves {e : Event Empty W} (hs : step methods parse s e = some t) :
    (∃ i w origin session msg, e = .runTask i w ∧
        s.server.tasks[i]? = some (.process origin session msg) ∧
        t.server = Server.runTask methods { s.server with tasks := s.server.tasks.eraseIdx i } w
          (.process origin session msg) ∧
        s.waiting = (session, msg.msgData) ::ₘ t.waiting ∧ t.numbered = s.numbered ∧
        (s.Faithful → t.Faithful)) ∨
      Moves s t ∧ ∀ i w, e = .runTask i w → s.server.tasks[i]?.bind taskEntry = none := by
  cases e with
  | runPosted =>
    simp only [step] at hs
    split at hs
    · rename_i n hphase hposted
      cases hs
      exact .inr ⟨⟨le_refl _, rfl, id⟩, by rintro i w ⟨⟩⟩
    · cases hs
  | receive received =>
    rcases step_receive hs with ⟨arguments, hread, herror, -⟩ | ⟨hmoves, -⟩
    · -- only a datagram has no error
      cases received with
      | operationAborted => cases hread
      | eof =>
        cases hread
        cases herror
      | failed message =>
        cases hread
        cases herror
      | datagram sender bytes => exact sender.elim
    · exact .inr ⟨hmoves, by rintro i w ⟨⟩⟩
  | advance => exact .inr ⟨moves_advance hs, by rintro i w ⟨⟩⟩
  | runTask i w =>
    simp only [step] at hs
    split at hs
    · cases hs
    · rename_i task hi
      cases hs
      cases task with
      | remove session =>
        have hperm : ((s.server.tasks.eraseIdx i).filterMap taskEntry).Perm
            (s.server.tasks.filterMap taskEntry) := (perm_cons_eraseIdx hi).filterMap taskEntry
        refine .inr ⟨⟨?_, rfl, fun h => h.erase (i := i) rfl⟩, ?_⟩
        · simp only [waiting, ← Multiset.coe_eq_coe.mpr hperm, Server.runTask]
          exact le_refl _
        · intro i' w' heq
          cases heq
          simp [hi, taskEntry]
      | process origin session msg =>
        have hperm : ((session, msg.msgData) ::
            (s.server.tasks.eraseIdx i).filterMap taskEntry).Perm
            (s.server.tasks.filterMap taskEntry) := (perm_cons_eraseIdx hi).filterMap taskEntry
        obtain ⟨thrown, heq⟩ := Server.runProcess_eq methods
          { s.server with tasks := s.server.tasks.eraseIdx i } origin session msg w
        refine .inl ⟨i, w, origin, session, msg, rfl, hi, rfl, ?_, ?_, ?_⟩
        · simp only [waiting, ← Multiset.coe_eq_coe.mpr hperm, Server.runTask, heq,
            ← Multiset.cons_coe, Multiset.add_cons]
        · simp only [numbered, Server.runTask, heq]
        · intro h
          exact h.erase (i := i) (by simp only [Server.runTask, heq])

end UdpServer

/-! ## The relay -/

/-- A server with one UDP socket, and the endpoint of every session. -/
structure UdpHost (K : DatagramCodec) (A E : Type*) where
  parser : K.Reader := K.reader
  server : UdpServer A := UdpServer.doAccept {}
  /-- in the order of the sessions; a default constructed endpoint is `none` -/
  endpoints : List (Option E) := []

namespace UdpHost

variable {K : DatagramCodec} {methods : SimpleMethodServer A W} {me : E} {s t : UdpHost K A E}

inductive Event (K : DatagramCodec) (E W : Type*) where
  /-- a datagram of another peer arrives -/
  | receive (sender : E) (bytes : Bytes) (choice : K.ReadChoice)
  /-- any other event of the server; a datagram comes from nobody -/
  | server (e : UdpServer.Event Empty W)

/-- The endpoint of the session that `udp_acceptor::on_read` makes, if it makes one. -/
def newEndpoint : Option (HandlerArguments E) → List (Option E)
  | none => []
  | some arguments => if arguments.error.hasError then [] else [arguments.endpoint]

/-- An outstanding receive completes with a datagram. -/
def receive (methods : SimpleMethodServer A W) (s : UdpHost K A E) (sender : E) (bytes : Bytes)
    (choice : K.ReadChoice) : Option (UdpHost K A E) :=
  match K.parser.parse s.parser bytes choice with
  | (some result, parser) =>
      (s.server.step (E := E) methods (fun _ => result) (.receive (.datagram sender bytes))).map
        fun server =>
          { parser, server
            endpoints := s.endpoints ++
              newEndpoint (onRead (fun _ => result) (.datagram sender bytes)) }
  -- the exception leaves the handler, and there is no next receive
  | (none, parser) =>
      match s.server.phase, s.server.receives with
      | .idle, n + 1 => some { s with parser, server := { s.server with receives := n } }
      | _, _ => none

structure Wf (s : UdpHost K A E) : Prop where
  endpoints : s.endpoints.length = s.server.numbered
  waiting : ∀ entry ∈ s.server.waiting, entry.1 < s.server.numbered
  faithful : s.server.Faithful

theorem Wf.moves {u : UdpServer A} {parser : K.Reader} (h : s.Wf)
    (hm : UdpServer.Moves s.server u) :
    Wf { s with server := u, parser := parser } where
  endpoints := h.endpoints.trans hm.numbered.symm
  waiting entry hentry := by
    show entry.1 < u.numbered
    rw [hm.numbered]
    exact h.waiting entry (Multiset.mem_of_le hm.waiting hentry)
  faithful := hm.faithful h.faithful

variable [DecidableEq E]

/-- What an event gives to the peer `me`: a response is sent to the endpoint of its
session. -/
def given (me : E) (s : UdpHost K A E) (u : UdpServer A) :
    UdpServer.Event Empty W → Option (Answer (Invocation A))
  | .runTask i _ =>
      (s.server.server.tasks[i]?.bind taskEntry).bind fun entry =>
        if s.endpoints[entry.1]? = some (some me) then
          Server.answerOf entry.1 s.server.server u.server i
        else none
  | _ => none

/-- The server as the peer `me` sees it. -/
def relay (K : DatagramCodec) (methods : SimpleMethodServer A W) (me : E) :
    Relay (UdpHost K A E) (Event K E W) ((MessageData × Bytes) × K.ReadChoice)
      (Answer (Invocation A)) where
  init := {}
  put s arrival := s.receive methods me arrival.1.2 arrival.2
  step s
    | .receive sender bytes choice =>
        if sender = me then none else (s.receive methods sender bytes choice).map (·, none)
    | .server e =>
        (s.server.step methods msgpackParse e).map fun u =>
          ({ s with server := u }, given me s u e)

/-- The session of the message is one of `me`. -/
def IsFrom (endpoints : List (Option E)) (me : E) (entry : Nat × MessageData) : Prop :=
  endpoints[entry.1]? = some (some me)

instance (endpoints : List (Option E)) (me : E) : DecidablePred (IsFrom endpoints me) :=
  fun entry => inferInstanceAs (Decidable (endpoints[entry.1]? = some (some me)))

/-- The messages of `me` that wait. -/
def backlog (me : E) (s : UdpHost K A E) : Multiset MessageData :=
  (s.server.waiting.filter (IsFrom s.endpoints me)).map Prod.snd

theorem backlog_le {u : UdpServer A} (h : u.waiting ≤ s.server.waiting) :
    backlog me { s with server := u } ≤ s.backlog me :=
  Multiset.map_le_map (Multiset.filter_le_filter _ h)

/-- The endpoints of the messages that wait are known already. -/
theorem filter_isFrom_append (h : s.Wf) (me : E) (new : List (Option E)) :
    s.server.waiting.filter (IsFrom (s.endpoints ++ new) me) =
      s.server.waiting.filter (IsFrom s.endpoints me) := by
  refine Multiset.filter_congr fun entry hentry => ?_
  have hlt : entry.1 < s.endpoints.length := by
    rw [h.endpoints]
    exact h.waiting entry hentry
  rw [IsFrom, IsFrom, List.getElem?_append_left hlt]

/-- **A datagram is received**: if it is of `me` and carries a message, `me` has one message
more that waits. -/
theorem receive_cases (me : E) {sender : E} {bytes : Bytes} {choice : K.ReadChoice} (h : s.Wf)
    (hs : s.receive methods sender bytes choice = some t) :
    t.Wf ∧ (t.backlog me ≤ s.backlog me ∨
      ∃ data, (K.parser.parse s.parser bytes choice).1 = some (.ok data) ∧ sender = me ∧
        t.backlog me = data ::ₘ s.backlog me) := by
  unfold receive at hs
  generalize K.parser.parse s.parser bytes choice = out at hs
  obtain ⟨result, parser⟩ := out
  cases result with
  | none =>
    simp only at hs
    split at hs
    · rename_i n hphase hreceives
      cases hs
      exact ⟨⟨h.endpoints, h.waiting, h.faithful⟩, .inl (le_refl _)⟩
    · cases hs
  | some result =>
    obtain ⟨u, hu, rfl⟩ := Option.map_eq_some_iff.mp hs
    rcases UdpServer.step_receive hu with
      ⟨arguments, hread, herror, hserver, hwaiting, hnumbered⟩ | ⟨hmoves, hnone⟩
    · have hnew : newEndpoint (onRead (fun _ => result) (.datagram sender bytes)) =
          [arguments.endpoint] := by
        simp [newEndpoint, hread, herror]
      have hlength : (s.endpoints ++ [arguments.endpoint]).length = u.numbered := by
        rw [List.length_append, h.endpoints, hnumbered]
        rfl
      have hget : (s.endpoints ++ [arguments.endpoint])[s.server.numbered]? =
          some arguments.endpoint := by
        rw [← h.endpoints]
        exact List.getElem?_concat_length
      rw [hnew]
      refine ⟨⟨hlength, ?_, ?_⟩, ?_⟩
      · intro entry hentry
        show entry.1 < u.numbered
        rw [hnumbered]
        rw [hwaiting] at hentry
        rcases Multiset.mem_cons.mp hentry with rfl | hentry
        · exact Nat.lt_succ_self _
        · exact Nat.lt_succ_of_lt (h.waiting entry hentry)
      · intro origin session msg hmem
        rw [hserver] at hmem
        exact h.faithful origin session msg hmem
      · have hrest := filter_isFrom_append h me [arguments.endpoint]
        by_cases hme : arguments.endpoint = some me
        · have hown : IsFrom (s.endpoints ++ [arguments.endpoint]) me
              (s.server.numbered, arguments.data) := hget.trans (congrArg some hme)
          cases result with
          | error info =>
            cases hread
            cases hme
          | ok data =>
            cases hread
            refine .inr ⟨data, rfl, Option.some.inj hme, ?_⟩
            rw [backlog, hwaiting, Multiset.filter_cons_of_pos _ hown, hrest, Multiset.map_cons]
            rfl
        · have hother : ¬ IsFrom (s.endpoints ++ [arguments.endpoint]) me
              (s.server.numbered, arguments.data) :=
            fun hown => hme (Option.some.inj (hget.symm.trans hown))
          refine .inl ?_
          rw [backlog, hwaiting, Multiset.filter_cons_of_neg _ hother, hrest]
          exact le_refl _
    · have hnew : newEndpoint (onRead (fun _ => result) (.datagram sender bytes)) = [] := by
        cases hread : onRead (fun _ => result) (Received.datagram sender bytes) with
        | none => rfl
        | some arguments => simp [newEndpoint, hnone arguments hread]
      rw [hnew, List.append_nil]
      exact ⟨h.moves hmoves, .inl (backlog_le hmoves.waiting)⟩

/-- What becomes of a message. -/
def Serves (methods : SimpleMethodServer A W) (data : MessageData)
    (answer : Answer (Invocation A)) :
    Prop :=
  ∃ session, Server.Serves methods session data answer

/-- **Any other event** leaves the messages of `me`, or a worker takes one of them. -/
theorem server_cases (me : E) {e : UdpServer.Event Empty W} {u : UdpServer A} (h : s.Wf)
    (hs : s.server.step methods msgpackParse e = some u) :
    Wf { s with server := u } ∧
      (given me s u e = none ∧ backlog me { s with server := u } ≤ s.backlog me ∨
        ∃ data answer, given me s u e = some answer ∧ Serves methods data answer ∧
          s.backlog me = data ::ₘ backlog me { s with server := u }) := by
  rcases UdpServer.step_moves hs with
    ⟨i, w, origin, session, msg, rfl, hi, hserver, hwaiting, hnumbered, hfaithful⟩ | ⟨hmoves, hnone⟩
  · have hwf : Wf { s with server := u } := by
      refine ⟨h.endpoints.trans hnumbered.symm, ?_, hfaithful h.faithful⟩
      intro entry hentry
      show entry.1 < u.numbered
      rw [hnumbered]
      apply h.waiting entry
      rw [hwaiting]
      exact Multiset.mem_cons_of_mem hentry
    refine ⟨hwf, ?_⟩
    by_cases hme : IsFrom s.endpoints me (session, msg.msgData)
    · have hmsg := h.faithful origin session msg (List.mem_of_getElem? hi)
      refine .inr ⟨msg.msgData, ⟨msg.msgData, Server.callOf methods s.server.server session msg w,
        (Server.responsesOf methods s.server.server origin session msg w).head?.map
          SessionWrite.data⟩, ?_,
        ⟨session, s.server.server, origin, msg, w, hmsg, rfl, rfl, rfl⟩, ?_⟩
      · have hanswer := Server.answerOf_runProcess methods session w hi
        rw [if_pos rfl, ← hserver] at hanswer
        simp only [given, hi, Option.bind_some, taskEntry]
        exact (if_pos hme).trans hanswer
      · rw [backlog, hwaiting, Multiset.filter_cons_of_pos _ hme, Multiset.map_cons]
        rfl
    · refine .inl ⟨?_, ?_⟩
      · simp only [given, hi, Option.bind_some, taskEntry]
        exact if_neg hme
      · rw [backlog, backlog, hwaiting, Multiset.filter_cons_of_neg _ hme]
  · refine ⟨h.moves hmoves, .inl ⟨?_, backlog_le hmoves.waiting⟩⟩
    cases e with
    | runTask i w =>
      simp only [given]
      rw [hnone i w rfl]
      rfl
    | runPosted | receive | advance => rfl

/-- The message is at the front of what is held. -/
theorem exists_cons_of_map {α β : Type*} {f : α → β} {b : β} {rest : Multiset β}
    {held : Multiset α} (h : b ::ₘ rest ≤ held.map f) :
    ∃ a more, held = a ::ₘ more ∧ f a = b ∧ rest ≤ more.map f := by
  obtain ⟨a, ha, rfl⟩ := Multiset.mem_map.mp (Multiset.mem_of_le h (Multiset.mem_cons_self b rest))
  obtain ⟨more, rfl⟩ := Multiset.exists_cons_of_mem ha
  rw [Multiset.map_cons] at h
  exact ⟨a, more, rfl, rfl, (Multiset.cons_le_cons_iff _).mp h⟩

/-- **The ledger of a peer**: every answer is that to one datagram of the peer, and each
datagram has one at most. -/
def ledger (K : DatagramCodec) (methods : SimpleMethodServer A W) (me : E) :
    (relay K methods me).Ledger (fun arrival => K.Carries arrival.1.1 arrival.1.2) Relay.AnyMove
      (fun arrival answer => Serves methods arrival.1.1 answer) (fun _ => False) where
  Holds s held := s.Wf ∧ s.backlog me ≤ held.map fun arrival => arrival.1.1
  init := ⟨⟨rfl, by simp [relay, UdpServer.waiting, UdpServer.doAccept, AcceptPhase.entry],
    by simp [relay, UdpServer.Faithful, UdpServer.doAccept]⟩, Multiset.zero_le _⟩
  put := by
    rintro s t held arrival ⟨hwf, hle⟩ hall hs
    have hcarries := hall arrival (Multiset.mem_cons_self _ _)
    obtain ⟨ht, hback | ⟨data, hdata, -, hback⟩⟩ := receive_cases me hwf hs
    · refine ⟨ht, (hback.trans hle).trans (Multiset.map_le_map (Multiset.le_cons_self _ _))⟩
    · refine ⟨ht, ?_⟩
      have hsame : data = arrival.1.1 := by
        rcases K.parse_carries (p := s.parser) arrival.2 hcarries with hnone | hok
        · rw [hnone] at hdata
          cases hdata
        · rw [hok] at hdata
          cases hdata
          rfl
      rw [hback, hsame, Multiset.map_cons]
      exact Multiset.cons_le_cons _ hle
  silent := by
    rintro s t held e ⟨hwf, hle⟩ - - hs
    cases e with
    | receive sender bytes choice =>
      simp only [relay, Option.ite_none_left_eq_some] at hs
      obtain ⟨hother, hs⟩ := hs
      obtain ⟨u, hu, heq⟩ := Option.map_eq_some_iff.mp hs
      cases heq
      obtain ⟨ht, hback | ⟨data, -, hme, -⟩⟩ := receive_cases me hwf hu
      · exact ⟨ht, hback.trans hle⟩
      · exact absurd hme hother
    | server e =>
      obtain ⟨u, hu, heq⟩ := Option.map_eq_some_iff.mp hs
      obtain ⟨rfl, hgiven⟩ := Prod.mk.inj heq
      obtain ⟨ht, ⟨-, hback⟩ | ⟨data, answer, hsome, -⟩⟩ := server_cases me hwf hu
      · exact ⟨ht, hback.trans hle⟩
      · rw [hsome] at hgiven
        cases hgiven
  gives := by
    rintro s t held e answer ⟨hwf, hle⟩ - - hs
    cases e with
    | receive sender bytes choice =>
      simp only [relay, Option.ite_none_left_eq_some] at hs
      obtain ⟨-, hs⟩ := hs
      obtain ⟨u, -, heq⟩ := Option.map_eq_some_iff.mp hs
      cases heq
    | server e =>
      obtain ⟨u, hu, heq⟩ := Option.map_eq_some_iff.mp hs
      obtain ⟨rfl, hgiven⟩ := Prod.mk.inj heq
      obtain ⟨ht, ⟨hnone, -⟩ | ⟨data, answer', hsome, hserves, hback⟩⟩ :=
        server_cases me hwf hu
      · rw [hnone] at hgiven
        cases hgiven
      · rw [hsome] at hgiven
        cases hgiven
        rw [hback] at hle
        obtain ⟨arrival, more, hheld, rfl, hrest⟩ := exists_cons_of_map hle
        exact .inl ⟨arrival, more, hheld, hserves, ht, hrest⟩

end UdpHost

end MpRpc.Udp
