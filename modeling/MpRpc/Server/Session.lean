import MpRpc.Remote
import MpRpc.Server.Answers
import MpRpc.Server.Base

/-!
# Session — one session of the server, seen by its peer

The server with all its sessions, as a relay for the messages of one of them. When the
closure for a message of the session runs, the relay gives out what became of it.
-/

namespace MpRpc

/-- The message keeps the bytes it was made of. -/
theorem Message.msgData_ofData {data : MessageData} {msg : Message}
    (h : Message.ofData data = .ok msg) : msg.msgData = data := by
  have hrequest : ∀ {handle array msg}, Message.parseRequest data handle array = .ok msg →
      msg.msgData = data := by
    intro handle array msg h
    unfold Message.parseRequest at h
    repeat' split at h
    all_goals cases h
    rfl
  have hresponse : ∀ {handle array msg}, Message.parseResponse data handle array = .ok msg →
      msg.msgData = data := by
    intro handle array msg h
    unfold Message.parseResponse at h
    repeat' split at h
    all_goals cases h
    rfl
  have hnotification : ∀ {handle array msg},
      Message.parseNotification data handle array = .ok msg → msg.msgData = data := by
    intro handle array msg h
    unfold Message.parseNotification at h
    repeat' split at h
    all_goals cases h
    rfl
  unfold Message.ofData at h
  split at h
  · cases h
  · cases h
  · rename_i handle _
    split at h
    · cases h
    · rename_i parsed hparse
      cases h
      unfold Message.parse at hparse
      split at hparse
      · split at hparse
        · split at hparse
          · cases hparse
          · exact hrequest hparse
          · exact hresponse hparse
          · exact hnotification hparse
          · cases hparse
        · cases hparse
      · cases hparse

namespace Server

variable {A W : Type*} {server : SimpleMethodServer A W} {s t : Server A} {k : Nat}

/-! ## What a closure writes -/

/-- **A closure writes only for a request** whose method is registered, and then one
response, on its own session. -/
theorem of_mem_responsesOf {origin session : Nat} {msg : Message} {w : W} {x : SessionWrite}
    (hx : x ∈ responsesOf server s origin session msg w) :
    msg.type = some .request ∧ ∃ m, server.methods.lookup msg.method = some m ∧
      callOf server s session msg w = m.invoke w msg ∧
      responsesOf server s origin session msg w = [x] ∧
      x = ⟨origin, session, MethodExecutor.respond msg.msgid (m.invoke w msg)⟩ := by
  by_cases hrequest : msg.type = some .request
  · by_cases hanswered : session ∉ s.disconnected ∧ msg.method ∈ server.methods
    · obtain ⟨m, hm⟩ := Option.isSome_iff_exists.mp (AList.lookup_isSome.mpr hanswered.2)
      obtain ⟨hcall, hresponses⟩ := responsesOf_request origin w hrequest hanswered.1 hm
      rw [hresponses] at hx ⊢
      have heq := List.mem_singleton.mp hx
      exact ⟨hrequest, m, hm, hcall, by rw [heq], heq⟩
    · rw [responsesOf_request_none hrequest hanswered] at hx
      cases hx
  · have hnone : responsesOf server s origin session msg w = [] := by
      cases htype : msg.type with
      | none => simp [responsesOf, SimpleMethodServer.doProcessMessage, htype, onExecution]
      | some type =>
        cases type with
        | request => exact absurd htype hrequest
        | notification => exact responsesOf_notification htype
        | response => simp [responsesOf, SimpleMethodServer.doProcessMessage, htype, onExecution]
    rw [hnone] at hx
    cases hx

/-! ## The relay -/

/-- The message that a closure of session `k` is to process. -/
def dataOf (k : Nat) : Task → Option MessageData
  | .process _ session msg => if session = k then some msg.msgData else none
  | .remove _ => none

/-- What a worker that has run closure `i` has done for session `k`: the call of the
user's function, and what was written on the session. -/
def answerOf (k : Nat) (s t : Server A) (i : Nat) : Option (Answer (Invocation A)) :=
  (s.tasks[i]?.bind (dataOf k)).map fun message =>
    { message
      invocation := (t.invocations.drop s.invocations.length).head?.map Prod.snd
      response := ((t.writes.drop s.writes.length).filter (·.session = k)).head?.map
        SessionWrite.data }

/-- The session that a closure removes. -/
def removed : Task → Option Nat
  | .process .. => none
  | .remove session => some session

/-- The part of the server that is `server_base`. -/
def base (s : Server A) : ServerBase := ⟨s.sessions, s.reads, s.tasks.filterMap removed⟩

/-- The read that an event completes. -/
def Event.read : Event W → Option (Nat × ErrorInfo)
  | .readDone i error _ => some (i, error)
  | _ => none

/-- What an event gives to the peer of session `k`. -/
def given (k : Nat) (s : Server A) (e : Event W) (t : Server A) :
    Option (Answer (Invocation A)) :=
  match e with
  | .runTask i _ => answerOf k s t i
  | _ => none

def host (server : SimpleMethodServer A W) (k : Nat) :
    ServerBase.Host (Server A) (Event W) (Answer (Invocation A)) where
  machine := machine server
  base := base
  readDone i data := .readDone i {} data
  read := Event.read
  given := given k

/-- The server as the peer of session `k` sees it. -/
def relay (server : SimpleMethodServer A W) (k : Nat) :
    Relay (Server A) (Event W) MessageData (Answer (Invocation A)) :=
  (host server k).relay k

theorem relay_put {data : MessageData} (hs : (relay server k).put s data = some t) :
    ∃ i, s.reads[i]? = some k ∧ s.step server (.readDone i {} data) = some t :=
  ServerBase.Host.relay_put hs

theorem relay_step {e : Event W} {out : Option (Answer (Invocation A))}
    (hs : (relay server k).step s e = some (t, out)) :
    ¬ s.base.FromPeer k e.read ∧ s.step server e = some t ∧ out = given k s e t :=
  ServerBase.Host.relay_step hs

/-- What becomes of a message in the state `s`: it is read as a `message`, and
`do_process_message` calls a function of the user, or none, and has a response written, or
none. -/
def Processed (server : SimpleMethodServer A W) (k : Nat) (s : Server A) (data : MessageData)
    (answer : Answer (Invocation A)) : Prop :=
  ∃ (origin : Nat) (msg : Message) (w : W), Message.ofData data = .ok msg ∧
    answer.message = data ∧ answer.invocation = callOf server s k msg w ∧
    answer.response = (responsesOf server s origin k msg w).head?.map SessionWrite.data

/-- What becomes of a message in some state. -/
def Serves (server : SimpleMethodServer A W) (k : Nat) (data : MessageData)
    (answer : Answer (Invocation A)) : Prop :=
  ∃ s : Server A, Processed server k s data answer

/-- The messages of session `k` that wait for a worker. -/
def backlog (k : Nat) (s : Server A) : Multiset MessageData :=
  (s.tasks.filterMap (dataOf k) : List _)

/-- The closures that wait have messages that could be read. -/
def Legible (s : Server A) : Prop :=
  ∀ origin session msg, Task.process origin session msg ∈ s.tasks →
    Message.ofData msg.msgData = .ok msg

theorem backlog_append {new : List Task} (htasks : t.tasks = s.tasks ++ new) :
    t.backlog k = s.backlog k + (new.filterMap (dataOf k) : List _) := by
  rw [backlog, backlog, htasks, List.filterMap_append, ← Multiset.coe_add]

/-! ## A read -/

/-- The closure that `on_read` posts for what it is given, if it posts one. -/
def posted (origin session : Nat) (error : ErrorInfo) (data : MessageData) : List Task :=
  if error.hasError then [.remove session]
  else
    match Message.ofData data with
    | .ok msg => [.process origin session msg]
    | .error (.exception _) => [.remove session]
    | .error _ => []

/-- **`on_read`** posts a closure and reads on, and leaves the rest alone. -/
theorem onRead_spec (s : Server A) (session : Nat) (error : ErrorInfo) (data : MessageData) :
    (s.onRead session error data).tasks =
        s.tasks ++ posted s.received.length session error data ∧
      (s.onRead session error data).sessions = s.sessions ∧
      (s.onRead session error data).disconnected = s.disconnected ∧
      ∃ again, (s.onRead session error data).reads = s.reads ++ again ∧
        ∀ k ∈ again, k = session := by
  cases herror : error.hasError with
  | true =>
    simp only [onRead, posted, herror, if_true, asyncRemoveSession, post]
    exact ⟨trivial, trivial, trivial, [], (List.append_nil _).symm, by simp⟩
  | false =>
    simp only [onRead, posted, herror, Bool.false_eq_true, if_false, asyncProcessMessage]
    cases hdata : Message.ofData data with
    | ok msg => simp [post, doRead]
    | error ex =>
      cases ex with
      | exception info => simp [asyncRemoveSession, post, doRead]
      | insufficientBytes | outOfRange | systemError => simp

theorem posted_of_ok {data : MessageData} {msg : Message} (h : Message.ofData data = .ok msg)
    (origin session : Nat) : posted origin session {} data = [.process origin session msg] := by
  simp [posted, h]

/-- A closure is posted for the message that was read, or for none. -/
theorem posted_cases (origin session : Nat) (error : ErrorInfo) (data : MessageData) :
    posted origin session error data = [] ∨
      posted origin session error data = [.remove session] ∨
      error.hasError = false ∧ ∃ msg, Message.ofData data = .ok msg ∧
        posted origin session error data = [.process origin session msg] := by
  unfold posted
  split
  · exact .inr (.inl rfl)
  · rename_i herror
    split
    · rename_i msg hmsg
      exact .inr (.inr ⟨by simpa using herror, msg, hmsg, rfl⟩)
    · exact .inr (.inl rfl)
    · exact .inl rfl

/-- The messages of session `k` for which a closure is posted: the one that was read. -/
theorem dataOf_posted (origin session : Nat) (error : ErrorInfo) (data : MessageData) :
    (posted origin session error data).filterMap (dataOf k) = [] ∨
      (session = k ∧ error.hasError = false) ∧
        (posted origin session error data).filterMap (dataOf k) = [data] := by
  rcases posted_cases origin session error data with hnone | hremove | ⟨herror, msg, hmsg, hprocess⟩
  · rw [hnone]
    exact .inl rfl
  · rw [hremove]
    exact .inl rfl
  · rw [hprocess]
    by_cases hk : session = k
    · refine .inr ⟨⟨hk, herror⟩, ?_⟩
      simp [dataOf, hk, Message.msgData_ofData hmsg]
    · exact .inl (by simp [dataOf, hk])

theorem Legible.onRead (h : s.Legible) (session : Nat) (error : ErrorInfo) (data : MessageData) :
    (s.onRead session error data).Legible := by
  intro origin session' msg hmem
  rw [(onRead_spec s session error data).1] at hmem
  rcases List.mem_append.mp hmem with hmem | hmem
  · exact h origin session' msg hmem
  · rcases posted_cases s.received.length session error data with
      hnone | hremove | ⟨-, msg', hmsg, hprocess⟩
    · rw [hnone] at hmem
      cases hmem
    · rw [hremove] at hmem
      cases List.mem_singleton.mp hmem
    · rw [hprocess] at hmem
      cases List.mem_singleton.mp hmem
      rw [Message.msgData_ofData hmsg, hmsg]

/-! ## A closure -/

/-- A closure is taken from the pool. -/
theorem backlog_take {i : Nat} {task : Task} (hi : s.tasks[i]? = some task)
    (htasks : t.tasks = s.tasks.eraseIdx i) :
    s.backlog k = ((dataOf k task).toList : Multiset MessageData) + t.backlog k := by
  have hperm := (perm_cons_eraseIdx hi).filterMap (dataOf k)
  rw [backlog, backlog, htasks, ← Multiset.coe_eq_coe.mpr hperm, Multiset.coe_add]
  cases hdata : dataOf k task with
  | none => rw [List.filterMap_cons_none hdata, Option.toList_none, List.nil_append]
  | some data => rw [List.filterMap_cons_some hdata, Option.toList_some, List.singleton_append]

theorem Legible.of_tasks (h : s.Legible) (htasks : ∀ task ∈ t.tasks, task ∈ s.tasks) : t.Legible :=
  fun origin session msg hmem => h origin session msg (htasks _ hmem)

theorem tasks_runTask (server : SimpleMethodServer A W) (s : Server A) (w : W) (task : Task) :
    (runTask server s w task).tasks = s.tasks := by
  cases task with
  | remove session => rfl
  | process origin session msg =>
    obtain ⟨thrown, heq⟩ := runProcess_eq server s origin session msg w
    rw [runTask, heq]

/-- A run of a closure shows in the traces of its message only. -/
theorem answerOf_runProcess (server : SimpleMethodServer A W) (k : Nat) {i origin session : Nat}
    {msg : Message} (w : W)
    (hi : s.tasks[i]? = some (.process origin session msg)) :
    answerOf k s (runTask server { s with tasks := s.tasks.eraseIdx i } w
        (.process origin session msg)) i =
      if session = k then
        some ⟨msg.msgData, callOf server s session msg w,
          (responsesOf server s origin session msg w).head?.map SessionWrite.data⟩
      else none := by
  by_cases hk : session = k
  · subst hk
    obtain ⟨thrown, heq⟩ :=
      runProcess_eq server { s with tasks := s.tasks.eraseIdx i } origin session msg w
    have hown : (responsesOf server s origin session msg w).filter (·.session = session) =
        responsesOf server s origin session msg w := by
      refine List.filter_eq_self.mpr fun x hx => ?_
      obtain ⟨-, m, -, -, -, rfl⟩ := of_mem_responsesOf hx
      simp
    have hcall : (callOf server { s with tasks := s.tasks.eraseIdx i } session msg w) =
        callOf server s session msg w := rfl
    have hresponses : (responsesOf server { s with tasks := s.tasks.eraseIdx i } origin session
        msg w) = responsesOf server s origin session msg w := rfl
    rw [runTask, heq, hcall, hresponses]
    simp only [answerOf, hi, dataOf, Option.bind_some, if_true, Option.map_some, List.drop_left,
      hown, Option.some.injEq, Answer.mk.injEq, true_and, and_true]
    cases callOf server s session msg w <;> rfl
  · simp [answerOf, hi, dataOf, hk]

/-- **What a move of the relay does** to the messages that wait: a worker processes one of
them, or they go on waiting. -/
theorem backlog_step (h : s.Legible) {e : Event W} {out : Option (Answer (Invocation A))}
    (hs : (relay server k).step s e = some (t, out)) :
    t.Legible ∧ (out = none ∧ t.backlog k = s.backlog k ∨
      ∃ data answer, out = some answer ∧ Processed server k s data answer ∧
        s.backlog k = data ::ₘ t.backlog k) := by
  obtain ⟨hpeer, hu, rfl⟩ := relay_step hs
  cases e with
  | accept =>
    cases hu
    exact ⟨h, .inl ⟨rfl, rfl⟩⟩
  | disconnect session =>
    cases hu
    exact ⟨h, .inl ⟨rfl, rfl⟩⟩
  | readDone i error data =>
    obtain ⟨session, hi, ⟨-, rfl⟩ | ⟨-, rfl⟩⟩ := step_readDone hu
    · have hother : ¬ (session = k ∧ error.hasError = false) := by
        rintro ⟨rfl, herror⟩
        exact hpeer ⟨hi, herror⟩
      refine ⟨Legible.onRead (s := { s with reads := s.reads.eraseIdx i }) h session error data,
        .inl ⟨rfl, ?_⟩⟩
      have hnone := (dataOf_posted (k := k) s.received.length session error data).resolve_right
        fun h => hother h.1
      rw [backlog_append (onRead_spec _ session error data).1, hnone]
      exact add_zero _
    · exact ⟨h, .inl ⟨rfl, rfl⟩⟩
  | runTask i w =>
    obtain ⟨task, hi, rfl⟩ := step_runTask hu
    have htasks := tasks_runTask server { s with tasks := s.tasks.eraseIdx i } w task
    have htake := backlog_take (k := k) hi htasks
    refine ⟨h.of_tasks fun task hmem => List.mem_of_mem_eraseIdx (htasks ▸ hmem), ?_⟩
    cases task with
    | remove session =>
      exact .inl ⟨by simp [given, answerOf, hi, dataOf], (htake.trans (zero_add _)).symm⟩
    | process origin session msg =>
      simp only [given, answerOf_runProcess server k w hi]
      by_cases hk : session = k
      · subst hk
        have hown : dataOf session (.process origin session msg) = some msg.msgData := if_pos rfl
        rw [hown] at htake
        rw [if_pos rfl]
        exact .inr ⟨msg.msgData, _, rfl, ⟨origin, msg, w,
          h origin session msg (List.mem_of_getElem? hi), rfl, rfl, rfl⟩, htake⟩
      · have hother : dataOf k (.process origin session msg) = none := if_neg hk
        rw [hother] at htake
        rw [if_neg hk]
        exact .inl ⟨rfl, (htake.trans (zero_add _)).symm⟩

/-- **A message of the peer is read**: it waits, or the session is gone. -/
theorem backlog_put (h : s.Legible) {data : MessageData}
    (hs : (relay server k).put s data = some t) :
    t.Legible ∧ t.backlog k ≤ data ::ₘ s.backlog k := by
  obtain ⟨i, hi, hs⟩ := relay_put hs
  obtain ⟨session, hsession, ⟨-, rfl⟩ | ⟨-, rfl⟩⟩ := step_readDone hs
  · refine ⟨Legible.onRead (s := { s with reads := s.reads.eraseIdx i }) h session {} data, ?_⟩
    rw [backlog_append (onRead_spec _ session {} data).1, ← Multiset.singleton_add, add_comm]
    refine add_le_add ?_ (le_refl _)
    rcases dataOf_posted (k := k) s.received.length session {} data with hnone | ⟨-, hone⟩
    · rw [hnone]
      exact Multiset.zero_le _
    · rw [hone]
      exact le_refl _
  · exact ⟨h, Multiset.le_cons_self _ data⟩

/-- **The ledger of a session**: every answer is that to one message of the peer, and each
message has one at most. -/
def ledger (server : SimpleMethodServer A W) (k : Nat) :
    (relay server k).Ledger (fun _ => True) Relay.AnyMove (Serves server k) (fun _ => False) :=
  .ofBacklog Legible (backlog k) True ⟨nofun, rfl⟩
    (fun h _ hs => (backlog_put h hs).imp_right fun hle => ⟨hle, absurd trivial⟩)
    (fun h _ hs => (backlog_step h hs).imp_right fun hcases => hcases.imp_right
      fun ⟨data, answer, hout, hprocessed, hback⟩ => ⟨data, answer, hout, ⟨_, hprocessed⟩, hback⟩)

/-! ## While nothing fails -/

/-- The sessions that the posted closure removes: at most the one that was read. -/
theorem removed_posted {origin session : Nat} {error : ErrorInfo} {data : MessageData} :
    ∀ x ∈ (posted origin session error data).filterMap removed, x = session := by
  rcases posted_cases origin session error data with hnone | hremove | ⟨-, msg, -, hprocess⟩
  · simp [hnone]
  · simp [hremove, removed]
  · simp [hprocess, removed]

/-- **What an event does to `server_base`.** -/
theorem move_of_step {e : Event W} (hs : s.step server e = some t) :
    s.base.Move (s.base.sessionRead e.read) t.base := by
  cases e with
  | accept =>
    cases hs
    exact .accept s.accepted
  | disconnect session =>
    cases hs
    exact .run fun _ h => h
  | readDone i error data =>
    obtain ⟨session, hi, ⟨-, rfl⟩ | ⟨-, rfl⟩⟩ := step_readDone hs
    · obtain ⟨htasks, hsessions, -, again, hreads, hagain⟩ :=
        onRead_spec { s with reads := s.reads.eraseIdx i } session error data
      have hbase : (onRead { s with reads := s.reads.eraseIdx i } session error data).base =
          { s.base with
            reads := s.base.reads.eraseIdx i ++ again
            removals := s.base.removals ++
              (posted s.received.length session error data).filterMap removed } := by
        simp only [base, htasks, hsessions, hreads, List.filterMap_append]
      have hread : s.base.sessionRead (Event.readDone (W := W) i error data).read =
          some session := hi
      rw [hbase, hread]
      exact .read hi hagain removed_posted
    · have hread : s.base.sessionRead (Event.readDone (W := W) i error data).read =
          some session := hi
      have hmove : s.base.Move (some session) { s.base with
          reads := s.base.reads.eraseIdx i ++ [], removals := s.base.removals ++ [] } :=
        .read hi (by simp) (by simp)
      rw [List.append_nil, List.append_nil] at hmove
      exact hread ▸ hmove
  | runTask i w =>
    obtain ⟨task, hi, rfl⟩ := step_runTask hs
    have hremovals : ∀ x ∈ (s.tasks.eraseIdx i).filterMap removed, x ∈ s.tasks.filterMap removed :=
      ((List.eraseIdx_sublist s.tasks i).filterMap removed).subset
    cases task with
    | remove session =>
      exact .remove (List.mem_filterMap.mpr ⟨_, List.mem_of_getElem? hi, rfl⟩) hremovals
    | process origin session msg =>
      obtain ⟨thrown, heq⟩ :=
        runProcess_eq server { s with tasks := s.tasks.eraseIdx i } origin session msg w
      rw [runTask, heq]
      exact .run hremovals

/-- The session whose socket loses its peer. -/
def Event.lost : Event W → Option Nat
  | .disconnect session => some session
  | _ => none

/-- Session `k` keeps its peer, and its reads do not fail. -/
def Undisturbed (k : Nat) (s : Server A) (e : Event W) : Prop :=
  s.base.sessionRead e.read ≠ some k ∧ e.lost ≠ some k

instance (k : Nat) (s : Server A) : DecidablePred (Undisturbed (W := W) k s) :=
  fun e => inferInstanceAs (Decidable (s.base.sessionRead e.read ≠ some k ∧ e.lost ≠ some k))

/-- Session `k` is connected, and while it is read it is not going to be removed. -/
structure Steady (k : Nat) (s : Server A) : Prop where
  legible : s.Legible
  connected : k ∉ s.disconnected
  intact : s.base.Intact k

theorem disconnected_step {e : Event W} (hs : s.step server e = some t) :
    t.disconnected = s.disconnected ++ e.lost.toList := by
  cases e with
  | accept =>
    cases hs
    exact (List.append_nil _).symm
  | disconnect session =>
    cases hs
    rfl
  | readDone i error data =>
    obtain ⟨session, -, ⟨-, rfl⟩ | ⟨-, rfl⟩⟩ := step_readDone hs
    · rw [(onRead_spec _ session error data).2.2.1]
      exact (List.append_nil _).symm
    · exact (List.append_nil _).symm
  | runTask i w =>
    obtain ⟨task, -, rfl⟩ := step_runTask hs
    refine Eq.trans ?_ (List.append_nil _).symm
    cases task with
    | remove session => rfl
    | process origin session msg =>
      obtain ⟨thrown, heq⟩ :=
        runProcess_eq server { s with tasks := s.tasks.eraseIdx i } origin session msg w
      rw [runTask, heq]

/-- **An event that does not touch the session** leaves it as it is. -/
theorem Steady.step (h : s.Steady k) {e : Event W} (he : Undisturbed k s e)
    (hs : s.step server e = some t) (hlegible : t.Legible) : t.Steady k := by
  refine ⟨hlegible, ?_, h.intact.move (move_of_step hs) he.1⟩
  rw [disconnected_step hs, List.mem_append, not_or, Option.mem_toList]
  exact ⟨h.connected, he.2⟩

/-- What becomes of a message while the session is connected: a request to a method that is
registered has a response. -/
def Answers (server : SimpleMethodServer A W) (k : Nat) (data : MessageData)
    (answer : Answer (Invocation A)) : Prop :=
  Serves server k data answer ∧ ∀ msg, Message.ofData data = .ok msg →
    msg.type = some .request → msg.method ∈ server.methods → answer.response ≠ none

theorem Processed.answers {data : MessageData} {answer : Answer (Invocation A)}
    (h : Processed server k s data answer) (hk : k ∉ s.disconnected) :
    Answers server k data answer := by
  refine ⟨⟨s, h⟩, ?_⟩
  intro msg hmsg htype hmethod
  obtain ⟨origin, msg', w, hmsg', -, -, hresponse⟩ := h
  cases hmsg.symm.trans hmsg'
  obtain ⟨m, hm⟩ := Option.isSome_iff_exists.mp (AList.lookup_isSome.mpr hmethod)
  rw [hresponse, (responsesOf_request origin w htype hk hm).2]
  simp

/-- **A message of the peer waits for a worker.** -/
theorem Steady.put (h : s.Steady k) {data : MessageData} {msg : Message}
    (hmsg : Message.ofData data = .ok msg) (hs : (relay server k).put s data = some t) :
    t.Steady k ∧ t.backlog k = data ::ₘ s.backlog k := by
  have hlegible := (backlog_put h.legible hs).1
  obtain ⟨i, hi, hs⟩ := relay_put hs
  have hin : k ∈ s.sessions := h.intact.session (List.mem_of_getElem? hi)
  obtain ⟨session, hsession, ⟨-, rfl⟩ | ⟨hgone, -⟩⟩ := step_readDone hs
  · cases hi.symm.trans hsession
    obtain ⟨htasks, hsessions, hdisconnected, again, hreads, -⟩ :=
      onRead_spec { s with reads := s.reads.eraseIdx i } k {} data
    rw [posted_of_ok hmsg] at htasks
    have hbase : (onRead { s with reads := s.reads.eraseIdx i } k {} data).base =
        { s.base with reads := s.base.reads.eraseIdx i ++ again } := by
      simp [base, htasks, hsessions, hreads, removed]
    have hconnected :
        k ∉ (onRead { s with reads := s.reads.eraseIdx i } k {} data).disconnected := by
      rw [hdisconnected]
      exact h.connected
    refine ⟨⟨hlegible, hconnected, hbase ▸ h.intact.readOn hi again⟩, ?_⟩
    rw [backlog_append htasks]
    simp [dataOf, Message.msgData_ofData hmsg, backlog, add_comm]
  · cases hi.symm.trans hsession
    simp [alive, hin] at hgone

/-- **The tally of a session** that is not disturbed: every message of the peer is
processed, once no closure for one is waiting. -/
def tally (server : SimpleMethodServer A W) (k : Nat) :
    (relay server k).Tally (fun data => ∃ msg, Message.ofData data = .ok msg) (Undisturbed k)
      (Answers server k) (fun s => s.backlog k = 0) :=
  .ofBacklog (Steady k) (backlog k)
    ⟨⟨nofun, nofun, nofun, nofun⟩, rfl⟩
    (fun h ⟨_, hmsg⟩ hs => h.put hmsg hs)
    (by
      intro s t e out h he hs
      obtain ⟨hlegible, hcases⟩ := backlog_step h.legible hs
      refine ⟨h.step he (relay_step hs).2.1 hlegible, hcases.imp_right ?_⟩
      rintro ⟨data, answer, hout, hprocessed, hback⟩
      exact ⟨data, answer, hout, hprocessed.answers h.connected, hback⟩)

end Server

end MpRpc
