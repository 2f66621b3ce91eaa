import Mathlib
import MpRpc.Server

/-!
# Answers — every request is answered

What the server does about one received message is visible in three places:
the closure that waits for it, the calls of the user's function, and the
writes. A step changes these for one message at most, so the statement about
all messages is proved message by message: while the closure waits nothing has
been written, and the closure writes the one response, if it gets as far as
the method.
-/

namespace MpRpc.Server

variable {A W : Type*} {server : SimpleMethodServer A W} {s t : Server A}

/-! ## The traces of one received message -/

/-- The closure for message `i` has been posted and has not run. -/
def Waiting (s : Server A) (i : Nat) : Prop := i ∈ s.tasks.filterMap Task.origin

def writesOf (s : Server A) (i : Nat) : List SessionWrite := s.writes.filter (·.origin = i)

def invocationsOf (s : Server A) (i : Nat) : List (Invocation A) :=
  (s.invocations.filter (·.1 = i)).map Prod.snd

/-- The method of the request is missing, its parameters do not convert, or the
function threw. -/
def Faulty (server : SimpleMethodServer A W) (s : Server A) (i : Nat) (msg : Message) : Prop :=
  match server.methods.lookup msg.method with
  | none => True
  | some m =>
      m.paramsAs msg = none ∨ ∃ inv ∈ s.invocationsOf i, ∃ what, inv.outcome = .threw what

/-- `data` is a response to `msg`, with an error exactly if it is faulty. -/
def IsReply (server : SimpleMethodServer A W) (s : Server A) (i : Nat) (msg : Message)
    (data : MessageData) : Prop :=
  ∃ reply, Message.ofData data = .ok reply ∧ reply.type = some .response ∧
    reply.msgid = msg.msgid ∧ (reply.hasError = .ok true ↔ Faulty server s i msg)

/-- What a well-formed message `i` received on `session` must have led to. -/
structure Handled (server : SimpleMethodServer A W) (s : Server A) (i session : Nat)
    (msg : Message) : Prop where
  waiting : s.Waiting i → s.writesOf i = []
  request : msg.type = some .request → ¬ s.Waiting i →
    ∃ data, s.writesOf i = [⟨i, session, data⟩] ∧ IsReply server s i msg data
  notification : msg.type = some .notification → s.writesOf i = []

/-- Every request whose closure has run got exactly one response, on its own
session, and no notification got one. -/
def EveryRequestAnswered (server : SimpleMethodServer A W) (s : Server A) : Prop :=
  ∀ i session data msg, s.received[i]? = some (session, data) →
    Message.ofData data = .ok msg → Handled server s i session msg

/-! ## The invariant -/

structure Inv (s : Server A) : Prop where
  /-- A closure was posted for the message it carries. -/
  task : ∀ i session msg, Task.process i session msg ∈ s.tasks →
    ∃ data, s.received[i]? = some (session, data) ∧ Message.ofData data = .ok msg
  /-- One closure is posted for a message. -/
  tasksNodup : (s.tasks.filterMap Task.origin).Nodup
  waitingInvocations : ∀ i, s.Waiting i → s.invocationsOf i = []
  waitingWrites : ∀ i, s.Waiting i → s.writesOf i = []
  invocationOrigin : ∀ p ∈ s.invocations, p.1 < s.received.length
  writeOrigin : ∀ w ∈ s.writes, w.origin < s.received.length

theorem inv_init : Inv ({} : Server A) where
  task := by simp
  tasksNodup := by simp
  waitingInvocations := by simp [Waiting]
  waitingWrites := by simp [Waiting]
  invocationOrigin := by simp
  writeOrigin := by simp

/-- Only the received messages and their traces are part of the invariant. -/
theorem Inv.of_same (h : s.Inv) (hrec : t.received = s.received) (htasks : t.tasks = s.tasks)
    (hinv : t.invocations = s.invocations) (hwrites : t.writes = s.writes) : t.Inv := by
  obtain ⟨sessions, accepted, disconnected, reads, received, tasks, invocations, writes,
    thrown⟩ := t
  cases hrec
  cases htasks
  cases hinv
  cases hwrites
  exact ⟨h.task, h.tasksNodup, h.waitingInvocations, h.waitingWrites, h.invocationOrigin,
    h.writeOrigin⟩

theorem Inv.waiting_lt (h : s.Inv) {i : Nat} (hw : s.Waiting i) : i < s.received.length := by
  obtain ⟨task, hmem, hi⟩ := List.mem_filterMap.mp hw
  cases task with
  | remove => cases hi
  | process origin session msg =>
    cases hi
    obtain ⟨data, hdata, -⟩ := h.task _ _ _ hmem
    exact (List.getElem?_eq_some_iff.mp hdata).1

theorem Inv.writesOf_of_le (h : s.Inv) {i : Nat} (hi : s.received.length ≤ i) :
    s.writesOf i = [] := by
  refine List.filter_eq_nil_iff.mpr fun w hw => ?_
  have hlt := h.writeOrigin w hw
  simp only [decide_eq_true_eq]
  omega

theorem Inv.invocationsOf_of_le (h : s.Inv) {i : Nat} (hi : s.received.length ≤ i) :
    s.invocationsOf i = [] := by
  rw [invocationsOf, List.map_eq_nil_iff]
  refine List.filter_eq_nil_iff.mpr fun p hp => ?_
  have hlt := h.invocationOrigin p hp
  simp only [decide_eq_true_eq]
  omega

/-- A message for which no closure is posted. -/
theorem Inv.receive (h : s.Inv) (session : Nat) (data : MessageData) :
    Inv { s with received := s.received ++ [(session, data)] } where
  task i session' msg hmem := by
    obtain ⟨data', hdata, hmsg⟩ := h.task i session' msg hmem
    have hlt := (List.getElem?_eq_some_iff.mp hdata).1
    exact ⟨data', by simpa [List.getElem?_append_left hlt] using hdata, hmsg⟩
  tasksNodup := h.tasksNodup
  waitingInvocations := h.waitingInvocations
  waitingWrites := h.waitingWrites
  invocationOrigin p hp := by
    have hlt := h.invocationOrigin p hp
    simp only [List.length_append, List.length_singleton]
    omega
  writeOrigin w hw := by
    have hlt := h.writeOrigin w hw
    simp only [List.length_append, List.length_singleton]
    omega

theorem waiting_post {task : Task} {i : Nat} :
    (s.post task).Waiting i ↔ s.Waiting i ∨ task.origin = some i := by
  cases horigin : task.origin with
  | none => simp [Waiting, post, List.filterMap_append, horigin]
  | some o =>
    simp [Waiting, post, List.filterMap_append, horigin, eq_comm]

/-- Posting the closure for a message that has none and has left no trace. -/
theorem Inv.post (h : s.Inv) {task : Task}
    (htask : ∀ i session msg, task = .process i session msg →
      (∃ data, s.received[i]? = some (session, data) ∧ Message.ofData data = .ok msg) ∧
        ¬ s.Waiting i ∧ s.invocationsOf i = [] ∧ s.writesOf i = []) :
    (s.post task).Inv := by
  have horigin : ∀ i, task.origin = some i →
      ¬ s.Waiting i ∧ s.invocationsOf i = [] ∧ s.writesOf i = [] := by
    intro i hi
    cases task with
    | remove => cases hi
    | process origin session msg =>
      cases hi
      exact (htask _ _ _ rfl).2
  refine ⟨?_, ?_, ?_, ?_, h.invocationOrigin, h.writeOrigin⟩
  · intro i session msg hmem
    rcases List.mem_append.mp hmem with hmem | hmem
    · exact h.task i session msg hmem
    · exact (htask i session msg (List.mem_singleton.mp hmem).symm).1
  · have hlist : (s.post task).tasks.filterMap Task.origin =
        s.tasks.filterMap Task.origin ++ task.origin.toList := by
      cases hto : task.origin <;> simp [Server.post, hto]
    rw [hlist]
    refine List.nodup_append.mpr ⟨h.tasksNodup, ?_, ?_⟩
    · cases task.origin <;> simp
    · intro i hi j hj heq
      subst heq
      exact (horigin i (by simpa using hj)).1 hi
  · intro i hi
    rcases waiting_post.mp hi with hi | hi
    · exact h.waitingInvocations i hi
    · exact (horigin i hi).2.1
  · intro i hi
    rcases waiting_post.mp hi with hi | hi
    · exact h.waitingWrites i hi
    · exact (horigin i hi).2.2

/-- Taking a closure from the pool. -/
theorem Inv.waiting_take (h : s.Inv) {n : Nat} {task : Task} (ht : s.tasks[n]? = some task)
    (i : Nat) :
    Waiting { s with tasks := s.tasks.eraseIdx n } i ↔ s.Waiting i ∧ task.origin ≠ some i := by
  have hperm := (perm_cons_eraseIdx ht).filterMap Task.origin
  have hnodup := hperm.nodup_iff.mpr h.tasksNodup
  unfold Waiting
  rw [← hperm.mem_iff]
  cases horigin : task.origin with
  | none => simp [horigin]
  | some o =>
    rw [List.filterMap_cons_some horigin, List.nodup_cons] at hnodup
    rw [List.filterMap_cons_some horigin, List.mem_cons]
    constructor
    · intro hmem
      refine ⟨.inr hmem, fun heq => hnodup.1 ?_⟩
      rwa [Option.some.inj heq]
    · intro hand
      rcases hand with ⟨rfl | hmem, hne⟩
      · exact absurd rfl hne
      · exact hmem

theorem Inv.take (h : s.Inv) {n : Nat} {task : Task} (ht : s.tasks[n]? = some task) :
    Inv { s with tasks := s.tasks.eraseIdx n } where
  task i session msg hmem := h.task i session msg (List.mem_of_mem_eraseIdx hmem)
  tasksNodup := h.tasksNodup.sublist ((s.tasks.eraseIdx_sublist n).filterMap _)
  waitingInvocations i hi := h.waitingInvocations i ((h.waiting_take ht i).mp hi).1
  waitingWrites i hi := h.waitingWrites i ((h.waiting_take ht i).mp hi).1
  invocationOrigin := h.invocationOrigin
  writeOrigin := h.writeOrigin

/-! ## Running `do_process_message` -/

/-- The call that a run of the closure makes, and its writes. -/
def callOf (server : SimpleMethodServer A W) (s : Server A) (session : Nat) (msg : Message)
    (w : W) : Option (Invocation A) :=
  (server.doProcessMessage (session ∉ s.disconnected) w msg).invocation

def responsesOf (server : SimpleMethodServer A W) (s : Server A) (origin session : Nat)
    (msg : Message) (w : W) : List SessionWrite :=
  match (server.doProcessMessage (session ∉ s.disconnected) w msg).handled with
  | .error _ => []
  | .ok call => onExecution origin session call

/-- The closure leaves traces of its own message only. -/
theorem runProcess_eq (server : SimpleMethodServer A W) (s : Server A) (origin session : Nat)
    (msg : Message) (w : W) :
    ∃ thrown, s.runProcess server origin session msg w =
      { s with
        invocations := s.invocations ++ ((callOf server s session msg w).map (origin, ·)).toList
        writes := s.writes ++ responsesOf server s origin session msg w
        thrown } := by
  simp only [runProcess, callOf, responsesOf]
  generalize server.doProcessMessage _ w msg = done
  obtain ⟨invocation, ex | call⟩ := done
  · exact ⟨s.thrown ++ [ex], by simp⟩
  · exact ⟨s.thrown, rfl⟩

theorem origin_of_mem_responsesOf {origin session : Nat} {msg : Message} {w : W}
    {x : SessionWrite} (hx : x ∈ responsesOf server s origin session msg w) :
    x.origin = origin := by
  unfold responsesOf at hx
  split at hx
  · cases hx
  · unfold onExecution at hx
    split at hx
    · cases hx
    · split at hx
      · cases hx
      · rw [List.mem_singleton.mp hx]

theorem invocationsOf_runProcess (origin session : Nat) (msg : Message) (w : W) (i : Nat) :
    (s.runProcess server origin session msg w).invocationsOf i =
      s.invocationsOf i ++ if origin = i then (callOf server s session msg w).toList else [] := by
  obtain ⟨thrown, heq⟩ := runProcess_eq server s origin session msg w
  rw [heq]
  cases callOf server s session msg w with
  | none => simp [invocationsOf]
  | some inv =>
    by_cases hi : origin = i <;> simp [invocationsOf, hi]

theorem writesOf_runProcess (origin session : Nat) (msg : Message) (w : W) (i : Nat) :
    (s.runProcess server origin session msg w).writesOf i =
      s.writesOf i ++ if origin = i then responsesOf server s origin session msg w else [] := by
  obtain ⟨thrown, heq⟩ := runProcess_eq server s origin session msg w
  rw [heq, writesOf, List.filter_append]
  congr 1
  split
  · rename_i hi
    refine List.filter_eq_self.mpr fun x hx => ?_
    simpa [hi] using origin_of_mem_responsesOf hx
  · rename_i hi
    refine List.filter_eq_nil_iff.mpr fun x hx => ?_
    simpa [origin_of_mem_responsesOf hx] using hi

/-- A request gets its response exactly if the session has its peer and the
method is registered. -/
theorem responsesOf_request (origin : Nat) (w : W) {session : Nat} {msg : Message}
    {m : MethodExecutor A W} (ht : msg.type = some .request) (hc : session ∉ s.disconnected)
    (hm : server.methods.lookup msg.method = some m) :
    callOf server s session msg w = m.invoke w msg ∧
      responsesOf server s origin session msg w =
        [⟨origin, session, MethodExecutor.respond msg.msgid (m.invoke w msg)⟩] := by
  simp [callOf, responsesOf, SimpleMethodServer.doProcessMessage, ht, hc, hm, onExecution,
    MethodExecutor.processRequest]

theorem responsesOf_request_none {origin session : Nat} {msg : Message} {w : W}
    (ht : msg.type = some .request)
    (hc : ¬ (session ∉ s.disconnected ∧ msg.method ∈ server.methods)) :
    responsesOf server s origin session msg w = [] := by
  by_cases hd : session ∈ s.disconnected
  · simp [responsesOf, SimpleMethodServer.doProcessMessage, ht, hd]
  · have hm : server.methods.lookup msg.method = none :=
      AList.lookup_eq_none.mpr fun hm => hc ⟨hd, hm⟩
    simp [responsesOf, SimpleMethodServer.doProcessMessage, ht, hd, hm, onExecution,
      SimpleMethodServer.methodNotFound]

theorem responsesOf_notification {origin session : Nat} {msg : Message} {w : W}
    (ht : msg.type = some .notification) : responsesOf server s origin session msg w = [] := by
  by_cases hd : session ∈ s.disconnected
  · simp [responsesOf, SimpleMethodServer.doProcessMessage, ht, hd]
  · cases hm : server.methods.lookup msg.method <;>
      simp [responsesOf, SimpleMethodServer.doProcessMessage, ht, hd, hm, onExecution,
        SimpleMethodServer.methodNotFound]

theorem Inv.runProcess (h : s.Inv) {origin session : Nat} {msg : Message} (w : W)
    (hlt : origin < s.received.length) (hw : ¬ s.Waiting origin) :
    (s.runProcess server origin session msg w).Inv := by
  have htraces : ∀ i, s.Waiting i →
      (s.runProcess server origin session msg w).invocationsOf i = [] ∧
        (s.runProcess server origin session msg w).writesOf i = [] := by
    intro i hi
    have hne : origin ≠ i := fun heq => hw (heq ▸ hi)
    rw [invocationsOf_runProcess, writesOf_runProcess, if_neg hne, if_neg hne,
      h.waitingInvocations i hi, h.waitingWrites i hi]
    exact ⟨rfl, rfl⟩
  obtain ⟨thrown, heq⟩ := runProcess_eq server s origin session msg w
  rw [heq] at htraces ⊢
  refine ⟨h.task, h.tasksNodup, fun i hi => (htraces i hi).1, fun i hi => (htraces i hi).2, ?_, ?_⟩
  · intro p hp
    rcases List.mem_append.mp hp with hp | hp
    · exact h.invocationOrigin p hp
    · rw [Option.mem_toList, Option.map_eq_some_iff] at hp
      obtain ⟨inv, -, rfl⟩ := hp
      exact hlt
  · intro x hx
    rcases List.mem_append.mp hx with hx | hx
    · exact h.writeOrigin x hx
    · rw [origin_of_mem_responsesOf hx]
      exact hlt

/-! ## Reading -/

/-- What `on_read` does: the session is to be removed, or the message is recorded
and its closure posted, or it is recorded and rejected in one of two ways. -/
theorem onRead_cases (s : Server A) (session : Nat) (error : ErrorInfo) (data : MessageData) :
    s.onRead session error data = s.post (.remove session) ∨
    (∃ msg, Message.ofData data = .ok msg ∧ s.onRead session error data =
      (post { s with received := s.received ++ [(session, data)] }
        (.process s.received.length session msg)).doRead session) ∨
    (∃ ex, Message.ofData data = .error ex ∧
      (s.onRead session error data =
          (post { s with received := s.received ++ [(session, data)] }
            (.remove session)).doRead session ∨
        s.onRead session error data =
          { s with received := s.received ++ [(session, data)], thrown := s.thrown ++ [ex] })) := by
  cases herror : error.hasError with
  | true => exact .inl (by simp [onRead, herror, asyncRemoveSession])
  | false =>
    cases hd : Message.ofData data with
    | ok msg => exact .inr (.inl ⟨msg, rfl, by simp [onRead, herror, asyncProcessMessage, hd]⟩)
    | error ex =>
      refine .inr (.inr ⟨ex, rfl, ?_⟩)
      cases ex with
      | exception info =>
        exact .inl (by simp [onRead, herror, asyncProcessMessage, hd, asyncRemoveSession])
      | insufficientBytes | outOfRange | systemError =>
        exact .inr (by simp [onRead, herror, asyncProcessMessage, hd])

/-- The new message has the next index, which has left no trace. -/
theorem Inv.postNew (h : s.Inv) (session : Nat) {data : MessageData} {msg : Message}
    (hd : Message.ofData data = .ok msg) :
    (Server.post { s with received := s.received ++ [(session, data)] }
      (.process s.received.length session msg)).Inv := by
  refine (h.receive session data).post fun i session' msg' heq => ?_
  cases heq
  refine ⟨⟨data, by simp, hd⟩, fun hw => ?_, h.invocationsOf_of_le (Nat.le_refl _),
    h.writesOf_of_le (Nat.le_refl _)⟩
  exact absurd (h.waiting_lt hw) (Nat.lt_irrefl _)

theorem Inv.onRead (h : s.Inv) (session : Nat) (error : ErrorInfo) (data : MessageData) :
    (s.onRead session error data).Inv := by
  have hreads : ∀ u : Server A, u.Inv → (u.doRead session).Inv := fun u hu =>
    hu.of_same rfl rfl rfl rfl
  have hremove : ∀ u : Server A, u.Inv → (u.post (.remove session)).Inv := fun u hu =>
    hu.post fun _ _ _ heq => by cases heq
  rcases onRead_cases s session error data with heq | ⟨msg, hd, heq⟩ | ⟨ex, -, heq | heq⟩
  · rw [heq]
    exact hremove s h
  · rw [heq]
    exact hreads _ (h.postNew session hd)
  · rw [heq]
    exact hreads _ (hremove _ (h.receive session data))
  · rw [heq]
    exact (h.receive session data).of_same rfl rfl rfl rfl

/-- **Every step keeps the invariant.** -/
theorem Inv.step {e : Event W} (h : s.Inv) (he : s.step server e = some t) : t.Inv := by
  cases e with
  | accept =>
    cases he
    exact h.of_same rfl rfl rfl rfl
  | disconnect session =>
    cases he
    exact h.of_same rfl rfl rfl rfl
  | readDone i error data =>
    have hbase : Inv { s with reads := s.reads.eraseIdx i } := h.of_same rfl rfl rfl rfl
    obtain ⟨session, -, ⟨-, rfl⟩ | ⟨-, rfl⟩⟩ := step_readDone he
    · exact hbase.onRead session error data
    · exact hbase
  | runTask i w =>
    obtain ⟨task, htask, rfl⟩ := step_runTask he
    cases task with
    | remove session =>
      exact (h.take htask).of_same rfl rfl rfl rfl
    | process origin session msg =>
      obtain ⟨data, hdata, -⟩ := h.task origin session msg (List.mem_of_getElem? htask)
      have hlt := (List.getElem?_eq_some_iff.mp hdata).1
      refine (h.take htask).runProcess w hlt fun hw => ?_
      exact ((h.waiting_take htask origin).mp hw).2 rfl

/-! ## One message at a time -/

/-- `Handled` looks at the traces of its own message only. -/
theorem Handled.congr {i session : Nat} {msg : Message} (hw : t.Waiting i ↔ s.Waiting i)
    (hinv : t.invocationsOf i = s.invocationsOf i) (hwr : t.writesOf i = s.writesOf i) :
    Handled server t i session msg ↔ Handled server s i session msg := by
  have hreply : ∀ data, IsReply server t i msg data ↔ IsReply server s i msg data := by
    intro data
    simp only [IsReply, Faulty, hinv]
  constructor
  · intro hand
    obtain ⟨h₁, h₂, h₃⟩ := hand
    exact ⟨by simpa only [hw, hwr] using h₁, by simpa only [hw, hwr, hreply] using h₂,
      by simpa only [hwr] using h₃⟩
  · intro hand
    obtain ⟨h₁, h₂, h₃⟩ := hand
    exact ⟨by simpa only [hw, hwr] using h₁, by simpa only [hw, hwr, hreply] using h₂,
      by simpa only [hwr] using h₃⟩

theorem EveryRequestAnswered.of_same (hs : EveryRequestAnswered server s)
    (hrec : t.received = s.received) (hw : ∀ i, t.Waiting i ↔ s.Waiting i)
    (hinv : t.invocations = s.invocations) (hwr : t.writes = s.writes) :
    EveryRequestAnswered server t := by
  intro i session data msg hget hmsg
  refine (Handled.congr (hw i) ?_ ?_).mpr (hs i session data msg (hrec ▸ hget) hmsg)
  · simp only [invocationsOf, hinv]
  · simp only [writesOf, hwr]

/-- A message that leaves no trace, or only its closure, when it is received. -/
theorem EveryRequestAnswered.receive (h : s.Inv) (hs : EveryRequestAnswered server s)
    {session : Nat} {data : MessageData} (hrec : t.received = s.received ++ [(session, data)])
    (hw : ∀ i, i ≠ s.received.length → (t.Waiting i ↔ s.Waiting i))
    (hinv : t.invocations = s.invocations) (hwr : t.writes = s.writes)
    (hnew : ∀ msg, Message.ofData data = .ok msg → t.Waiting s.received.length) :
    EveryRequestAnswered server t := by
  intro i session' data' msg hget hmsg
  rw [hrec] at hget
  by_cases hi : i < s.received.length
  · rw [List.getElem?_append_left hi] at hget
    exact (Handled.congr (hw i (Nat.ne_of_lt hi)) (by simp only [invocationsOf, hinv])
      (by simp only [writesOf, hwr])).mpr (hs i session' data' msg hget hmsg)
  -- the new message has left no trace except its closure
  · have hlen := (List.getElem?_eq_some_iff.mp hget).1
    simp only [List.length_append, List.length_singleton] at hlen
    obtain rfl : i = s.received.length := by omega
    have hnil : t.writesOf s.received.length = [] := by
      simpa only [writesOf, hwr] using h.writesOf_of_le (Nat.le_refl _)
    have hdata : data' = data := by
      simp at hget
      exact hget.2.symm
    exact ⟨fun _ => hnil, fun _ hno => absurd (hnew msg (hdata ▸ hmsg)) hno, fun _ => hnil⟩

/-- The closure of a request, when it runs, finds a peer and a method. -/
def RequestsServable (server : SimpleMethodServer A W) (s : Server A) : Event W → Prop
  | .runTask i _ => ∀ origin session msg, s.tasks[i]? = some (.process origin session msg) →
      msg.type = some .request → session ∉ s.disconnected ∧ msg.method ∈ server.methods
  | _ => True

theorem EveryRequestAnswered.onRead (h : s.Inv) (hs : EveryRequestAnswered server s)
    (session : Nat) (error : ErrorInfo) (data : MessageData) :
    EveryRequestAnswered server (s.onRead session error data) := by
  have hremove : ∀ (u : Server A) i, (u.post (.remove session)).Waiting i ↔ u.Waiting i :=
    fun u i => by simp [waiting_post, Task.origin]
  rcases onRead_cases s session error data with heq | ⟨msg, hd, heq⟩ | ⟨ex, hd, heq | heq⟩
  · rw [heq]
    exact hs.of_same rfl (hremove s) rfl rfl
  · rw [heq]
    refine hs.receive h rfl (fun i hi => ?_) rfl rfl fun _ _ => waiting_post.mpr (.inr rfl)
    refine waiting_post.trans (or_iff_left fun hnew => ?_)
    exact hi (Option.some.inj hnew).symm
  · rw [heq]
    refine hs.receive h rfl (fun i _ => hremove _ i) rfl rfl fun msg hmsg => ?_
    simp [hd] at hmsg
  · rw [heq]
    refine hs.receive h rfl (fun _ _ => Iff.rfl) rfl rfl fun msg hmsg => ?_
    simp [hd] at hmsg

/-- The message whose closure has just run is handled exactly if, being a
request, it was servable. -/
theorem handled_runProcess_iff {origin session : Nat} {msg : Message} {w : W}
    (hw : ¬ s.Waiting origin) (hinv : s.invocationsOf origin = [])
    (hwr : s.writesOf origin = []) :
    Handled server (s.runProcess server origin session msg w) origin session msg ↔
      (msg.type = some .request → session ∉ s.disconnected ∧ msg.method ∈ server.methods) := by
  have hw' : ¬ (s.runProcess server origin session msg w).Waiting origin := by
    obtain ⟨thrown, heq⟩ := runProcess_eq server s origin session msg w
    rw [heq]
    exact hw
  have hwr' : (s.runProcess server origin session msg w).writesOf origin =
      responsesOf server s origin session msg w := by
    rw [writesOf_runProcess, if_pos rfl, hwr, List.nil_append]
  constructor
  · intro hh ht
    by_contra hc
    obtain ⟨data, hdata, -⟩ := hh.request ht hw'
    rw [hwr', responsesOf_request_none ht hc] at hdata
    cases hdata
  · intro hc
    refine ⟨fun hwait => absurd hwait hw', fun ht _ => ?_, fun ht => ?_⟩
    · obtain ⟨hconn, hmem⟩ := hc ht
      obtain ⟨m, hm⟩ := Option.isSome_iff_exists.mp (AList.lookup_isSome.mpr hmem)
      obtain ⟨hcall, hresp⟩ := responsesOf_request origin w ht hconn hm
      refine ⟨_, hwr'.trans hresp, ?_⟩
      refine ⟨_, MethodExecutor.ofData_respond msg.msgid (m.invoke w msg), rfl, rfl,
        (MethodExecutor.hasError_answer msg.msgid (m.invoke w msg)).trans ?_⟩
      simp only [Faulty, hm, invocationsOf_runProcess, if_pos, hinv, List.nil_append, hcall,
        Option.mem_toList]
      refine or_congr ?_ ?_
      · simp [MethodExecutor.invoke]
      · constructor
        · intro hex
          obtain ⟨i, what, hi, ho⟩ := hex
          exact ⟨i, hi, what, ho⟩
        · intro hex
          obtain ⟨i, hi, what, ho⟩ := hex
          exact ⟨i, what, hi, ho⟩
    · rw [hwr', responsesOf_notification ht]

/-- Running the closure of one message changes what is said of that message. -/
theorem everyRequestAnswered_runProcess_iff (h : s.Inv) (hs : EveryRequestAnswered server s)
    {i origin session : Nat} {msg : Message} (w : W)
    (htask : s.tasks[i]? = some (.process origin session msg)) :
    EveryRequestAnswered server
        (runProcess server { s with tasks := s.tasks.eraseIdx i } origin session msg w) ↔
      (msg.type = some .request → session ∉ s.disconnected ∧ msg.method ∈ server.methods) := by
  obtain ⟨data, hdata, hmsg⟩ := h.task origin session msg (List.mem_of_getElem? htask)
  have hwait : s.Waiting origin :=
    List.mem_filterMap.mpr ⟨_, List.mem_of_getElem? htask, rfl⟩
  have htake := h.waiting_take htask
  have hiff : Handled server
      (runProcess server { s with tasks := s.tasks.eraseIdx i } origin session msg w)
      origin session msg ↔
        (msg.type = some .request → session ∉ s.disconnected ∧ msg.method ∈ server.methods) :=
    handled_runProcess_iff (fun hwu => ((htake origin).mp hwu).2 rfl)
      (h.waitingInvocations origin hwait) (h.waitingWrites origin hwait)
  rw [← hiff]
  obtain ⟨thrown, heq⟩ :=
    runProcess_eq server { s with tasks := s.tasks.eraseIdx i } origin session msg w
  have hrec : (runProcess server { s with tasks := s.tasks.eraseIdx i } origin session msg
      w).received = s.received := by rw [heq]
  constructor
  · intro ht
    exact ht origin session data msg (by rw [hrec]; exact hdata) hmsg
  · intro hh j session' data' msg' hget hmsg'
    rw [hrec] at hget
    -- the traces of every other message are as they were
    by_cases hj : origin = j
    · subst hj
      rw [hdata, Option.some.injEq, Prod.mk.injEq] at hget
      obtain ⟨rfl, rfl⟩ := hget
      rw [hmsg, Except.ok.injEq] at hmsg'
      rwa [← hmsg']
    · refine (Handled.congr ?_ ?_ ?_).mpr (hs j session' data' msg' hget hmsg')
      · rw [heq]
        exact (htake j).trans (and_iff_left fun h => hj (Option.some.inj h))
      · rw [invocationsOf_runProcess, if_neg hj, List.append_nil]
        rfl
      · rw [writesOf_runProcess, if_neg hj, List.append_nil]
        rfl

/-- A step keeps every request answered exactly if it serves its request. -/
theorem everyRequestAnswered_step_iff {e : Event W} (h : s.Inv)
    (hs : EveryRequestAnswered server s) (he : s.step server e = some t) :
    EveryRequestAnswered server t ↔ RequestsServable server s e := by
  cases e with
  | accept =>
    cases he
    exact iff_of_true (hs.of_same rfl (fun _ => Iff.rfl) rfl rfl) trivial
  | disconnect session =>
    cases he
    exact iff_of_true (hs.of_same rfl (fun _ => Iff.rfl) rfl rfl) trivial
  | readDone i error data =>
    refine iff_of_true ?_ trivial
    have hbase : Inv { s with reads := s.reads.eraseIdx i } := h.of_same rfl rfl rfl rfl
    have hsbase : EveryRequestAnswered server { s with reads := s.reads.eraseIdx i } :=
      hs.of_same rfl (fun _ => Iff.rfl) rfl rfl
    obtain ⟨session, -, ⟨-, rfl⟩ | ⟨-, rfl⟩⟩ := step_readDone he
    · exact hsbase.onRead hbase session error data
    · exact hsbase
  | runTask i w =>
    obtain ⟨task, htask, rfl⟩ := step_runTask he
    simp only [RequestsServable, htask, Option.some.injEq]
    cases task with
    | remove session =>
      refine iff_of_true ?_ (by simp)
      refine hs.of_same rfl (fun j => ?_) rfl rfl
      exact (h.waiting_take htask j).trans (and_iff_left (by simp [Task.origin]))
    | process origin session msg =>
      simp only [Task.process.injEq, and_imp]
      refine (everyRequestAnswered_runProcess_iff h hs w htask).trans ?_
      refine ⟨?_, fun hc => hc origin session msg rfl rfl rfl⟩
      rintro hc _ _ _ rfl rfl rfl
      exact hc

/-- **Every request is answered** in every state of a run exactly if every closure
of a request that the run executes finds a peer and a registered method. -/
theorem everyRequestAnswered_iff_requestsServable {es : List (Event W)}
    (hr : (machine server).run {} es = some t) :
    (machine server).EachState (EveryRequestAnswered server) {} es ↔
      (machine server).EachStep (RequestsServable server) {} es := by
  have hinit : EveryRequestAnswered server ({} : Server A) := by simp [EveryRequestAnswered]
  exact Machine.eachState_iff_eachStep (J := Inv) (I := EveryRequestAnswered server)
    (fun _ _ _ hs he => hs.step he) (fun _ _ _ h hs he => everyRequestAnswered_step_iff h hs he)
    inv_init hinit hr

/-- A server with one method, which takes one parameter and returns nil. -/
def echoServer : SimpleMethodServer Msgpack.Object Unit :=
  .ofMethods
    [⟨ascii "echo", [⟨some, .nil⟩],
      fun _ _ => .returned ⟨.nil, Msgpack.Object.packable_nil⟩⟩]

/-- A session sends a request for `method`, and its closure runs. -/
def requestOnce (method : String) : List (Event Unit) :=
  [.accept, .readDone 0 {} (packRequest 7 (ascii method) [.nil]), .runTask 0 ()]

theorem everyRequestAnswered_iff_requestsServable_echo :
    (machine echoServer).EachState (EveryRequestAnswered echoServer) {} (requestOnce "echo") ↔
      (machine echoServer).EachStep (RequestsServable echoServer) {} (requestOnce "echo") :=
  everyRequestAnswered_iff_requestsServable rfl

/-- A request for a method that is not registered is never answered. -/
theorem unknown_method_not_answered :
    ∃ s, (machine echoServer).run {} (requestOnce "hello") = some s ∧
      s.received = [(0, packRequest 7 (ascii "hello") [.nil])] ∧ s.tasks = [] ∧ s.writes = [] ∧
      ¬ EveryRequestAnswered echoServer s := by
  have hno : ∀ s : Server Msgpack.Object,
      s.received = [(0, packRequest 7 (ascii "hello") [.nil])] → s.tasks = [] → s.writes = [] →
      ¬ EveryRequestAnswered echoServer s := by
    intro s hrec htasks hwrites hall
    have hmsg : Message.ofData (packRequest 7 (ascii "hello") [.nil]) =
        .ok (Message.request 7 (ascii "hello") [.nil]) :=
      ofData_packRequest 7 (by decide) (by decide)
    have hh := hall 0 0 _ _ (by rw [hrec]; rfl) hmsg
    obtain ⟨data, hdata, -⟩ := hh.request rfl (by simp [Waiting, htasks])
    simp [writesOf, hwrites] at hdata
  exact ⟨_, rfl, rfl, rfl, rfl, hno _ rfl rfl rfl⟩

end MpRpc.Server
