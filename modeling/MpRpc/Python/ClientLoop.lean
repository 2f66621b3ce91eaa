import Mathlib
import MpRpc.Python.Client
import MpRpc.Python.MethodServer

/-!
# ClientLoop — the reading loop of the Python client

The client over its connector, from `start` on. The connector delivers messages in
the order in which they arrive, one for each `async_read`. `do_read` is called by
`start` and by nothing else: the handler of the first read does not read again.
So the first message is processed, and no other.
-/

namespace MpRpc.Python

/-- A client over `python_client_helper`. -/
structure PythonClient where
  client : Client := {}
  /-- outstanding `async_read`s -/
  reads : Nat := 0
  /-- every message that has arrived on the connector -/
  arrived : List MessageData := []
  /-- the messages that have arrived and no read has taken -/
  inbox : List MessageData := []
  /-- the messages `_process_message` was called with -/
  processed : List MessageData := []

namespace PythonClient

variable {msgpack : MsgpackPackage} {s t : PythonClient}

/-- `python_client_helper::do_read`. -/
def doRead (s : PythonClient) : PythonClient := { s with reads := s.reads + 1 }

/-- `python_client_helper::start`. -/
def start (s : PythonClient) : PythonClient := s.doRead

inductive Event where
  /-- `async_request` -/
  | asyncRequest (method : Bytes) (args : List PyObject)
  /-- `notify` -/
  | notify (method : Bytes) (args : List PyObject)
  /-- the outstanding send `i` completes -/
  | sendDone (i : Nat) (err : ErrorInfo)
  /-- a message arrives on the connector -/
  | arrive (data : MessageData)
  /-- an outstanding read completes with the next message -/
  | readDone
  /-- an outstanding read completes with an error -/
  | readFailed (err : ErrorInfo)

/-- The handler of `do_read`. -/
def onRead (msgpack : MsgpackPackage) (s : PythonClient) (err : ErrorInfo) (data : MessageData) :
    PythonClient :=
  { s with client := Client.escape (s.client.processMessage msgpack err data) }

def step (msgpack : MsgpackPackage) (s : PythonClient) : Event → Option PythonClient
  | .asyncRequest method args =>
      some { s with client := s.client.asyncRequest msgpack method args }
  | .notify method args => some { s with client := s.client.notify msgpack method args }
  | .sendDone i err =>
      match s.client.sends[i]? with
      | none => none
      | some (handler, _) => some { s with client := s.client.onSent i handler err }
  | .arrive data => some { s with arrived := s.arrived ++ [data], inbox := s.inbox ++ [data] }
  | .readDone =>
      match s.reads, s.inbox with
      | n + 1, data :: inbox =>
          some (onRead msgpack
            { s with reads := n, inbox, processed := s.processed ++ [data] } {} data)
      | _, _ => none
  | .readFailed err =>
      match s.reads with
      | n + 1 => some (onRead msgpack { s with reads := n } err [])
      | 0 => none

/-- The client, after `start`. -/
def machine (msgpack : MsgpackPackage) : Machine PythonClient Event := ⟨start {}, step msgpack⟩

/-! ## The dictionary, along every run -/

theorem step_sendDone {i : Nat} {err : ErrorInfo} (hs : step msgpack s (.sendDone i err) = some t) :
    ∃ handler, t = { s with client := s.client.onSent i handler err } := by
  simp only [step] at hs
  split at hs
  · cases hs
  · rename_i handler data hi
    cases hs
    exact ⟨handler, rfl⟩

theorem step_readDone (hs : step msgpack s .readDone = some t) :
    ∃ n data inbox, s.reads = n + 1 ∧ s.inbox = data :: inbox ∧
      t = onRead msgpack
        { s with reads := n, inbox, processed := s.processed ++ [data] } {} data := by
  simp only [step] at hs
  split at hs
  · rename_i n data inbox hreads hinbox
    cases hs
    exact ⟨n, data, inbox, hreads, hinbox, rfl⟩
  · cases hs

theorem wf_step {e : Event} (h : s.client.Wf) (hs : step msgpack s e = some t) : t.client.Wf := by
  cases e with
  | asyncRequest method args =>
    cases hs
    exact h.asyncRequest method args
  | notify method args =>
    cases hs
    exact h.notify method args
  | sendDone i err =>
    obtain ⟨handler, rfl⟩ := step_sendDone hs
    exact h.onSent i handler err
  | arrive data =>
    cases hs
    exact h
  | readDone =>
    obtain ⟨n, data, inbox, -, -, rfl⟩ := step_readDone hs
    exact (h.processMessage msgpack {} data).1.escape
  | readFailed err =>
    simp only [step] at hs
    split at hs
    · cases hs
      exact (h.processMessage msgpack err []).1.escape
    · cases hs

/-- **The dictionary of a reachable client** is exactly its running futures. -/
theorem reachable_wf (h : (machine msgpack).Reachable s) : s.client.Wf :=
  h.invariant (I := fun s : PythonClient => s.client.Wf) Client.Wf.init fun _ _ _ hwf hs =>
    wf_step hwf hs

/-! ## One read -/

/-- What has arrived is processed in order, by the one read that was issued. -/
structure Reading (s : PythonClient) : Prop where
  order : s.arrived = s.processed ++ s.inbox
  once : s.reads + s.processed.length = 1

theorem Reading.step {e : Event} (h : s.Reading) (he : ∀ err, e ≠ .readFailed err)
    (hs : step msgpack s e = some t) : t.Reading := by
  cases e with
  | asyncRequest | notify =>
    cases hs
    exact ⟨h.order, h.once⟩
  | sendDone i err =>
    obtain ⟨handler, rfl⟩ := step_sendDone hs
    exact ⟨h.order, h.once⟩
  | arrive data =>
    cases hs
    refine ⟨?_, h.once⟩
    show s.arrived ++ [data] = s.processed ++ (s.inbox ++ [data])
    rw [h.order, List.append_assoc]
  | readDone =>
    obtain ⟨n, data, inbox, hreads, hinbox, rfl⟩ := step_readDone hs
    have honce := h.once
    constructor
    · show s.arrived = s.processed ++ [data] ++ inbox
      rw [h.order, hinbox, List.append_assoc, List.singleton_append]
    · show n + (s.processed ++ [data]).length = 1
      rw [List.length_append, List.length_singleton]
      omega
  | readFailed err => exact absurd rfl (he err)

/-- No read can complete with a message: there is no read, or no message. -/
def Idle (s : PythonClient) : Prop := s.inbox = [] ∨ s.reads = 0

theorem Reading.processed_iff (h : s.Reading) (hidle : s.Idle) :
    s.processed = s.arrived ↔ s.arrived.length ≤ 1 := by
  have hlength : s.arrived.length = s.processed.length + s.inbox.length := by
    rw [h.order, List.length_append]
  have honce := h.once
  constructor
  · intro heq
    have := congrArg List.length heq
    omega
  · intro hle
    have hnil : s.inbox = [] := by
      rcases hidle with hnil | hreads
      · exact hnil
      · apply List.eq_nil_of_length_eq_zero
        omega
    rw [h.order, hnil, List.append_nil]

/-! ## Requests and their responses -/

/-- The message ID of a response. -/
def msgid? (msgpack : MsgpackPackage) (data : MessageData) : Option Int :=
  (Client.response? msgpack data).map Prod.fst

/-- The message is a response, and the future of its request is completed by it. -/
def Completed (msgpack : MsgpackPackage) (c : Client) (data : MessageData) : Prop :=
  ∃ n error result, Client.response? msgpack data = some (n, error, result) ∧
    c.futures[n.toNat]? = some (Client.outcome error result)

/-- What arrives is a response to a request that waits for one, and nothing fails. -/
def Answering (msgpack : MsgpackPackage) (s : PythonClient) : Event → Prop
  | .arrive data =>
      ∃ n ∈ s.client.requests, msgid? msgpack data = some n ∧
        ∀ other ∈ s.inbox, msgid? msgpack other ≠ some n
  | .sendDone _ err => err.hasError = false
  | .readFailed _ => False
  | _ => True

/-- The messages not yet processed answer distinct requests of the dictionary, and
every message that was processed has completed its request. -/
structure Serving (msgpack : MsgpackPackage) (s : PythonClient) : Prop where
  wf : s.client.Wf
  awaited : ∀ data ∈ s.inbox, ∃ n ∈ s.client.requests, msgid? msgpack data = some n
  distinct : (s.inbox.map (msgid? msgpack)).Nodup
  completed : ∀ data ∈ s.processed, Completed msgpack s.client data

theorem Serving.init : (start {}).Serving msgpack where
  wf := Client.Wf.init
  awaited := by simp [start, doRead]
  distinct := by simp [start, doRead]
  completed := by simp [start, doRead]

/-- A client that keeps the dictionary and its completed futures keeps serving. -/
theorem Serving.ofClient (h : s.Serving msgpack) {c : Client} (hwf : c.Wf)
    (hrequests : ∀ n ∈ s.client.requests, n ∈ c.requests)
    (hfutures : ∀ data, Completed msgpack s.client data → Completed msgpack c data) :
    Serving msgpack { s with client := c } where
  wf := hwf
  awaited := by
    intro data hdata
    obtain ⟨n, hn, hid⟩ := h.awaited data hdata
    exact ⟨n, hrequests n hn, hid⟩
  distinct := h.distinct
  completed := fun data hdata => hfutures data (h.completed data hdata)

theorem Serving.asyncRequest (h : s.Serving msgpack) (method : Bytes) (args : List PyObject) :
    Serving msgpack { s with client := s.client.asyncRequest msgpack method args } := by
  apply h.ofClient (h.wf.asyncRequest method args)
  · intro n hn
    unfold Client.asyncRequest
    split
    · exact hn
    · exact (AList.mem_insert _).mpr (.inr hn)
  · intro data hdata
    obtain ⟨n, error, result, hresponse, hget⟩ := hdata
    refine ⟨n, error, result, hresponse, ?_⟩
    unfold Client.asyncRequest
    split
    · exact hget
    · show (s.client.futures ++ [PyFuture.running])[n.toNat]? = _
      rw [List.getElem?_append_left (List.getElem?_eq_some_iff.mp hget).1, hget]

theorem Serving.arrive (h : s.Serving msgpack) {data : MessageData}
    (he : Answering msgpack s (.arrive data)) :
    Serving msgpack { s with arrived := s.arrived ++ [data], inbox := s.inbox ++ [data] } := by
  obtain ⟨n, hn, hid, hnew⟩ := he
  refine ⟨h.wf, ?_, ?_, h.completed⟩
  · intro other hother
    rcases List.mem_append.mp hother with hother | hother
    · exact h.awaited other hother
    · rw [List.mem_singleton.mp hother]
      exact ⟨n, hn, hid⟩
  · show ((s.inbox ++ [data]).map (msgid? msgpack)).Nodup
    rw [List.map_append]
    apply h.distinct.append (List.nodup_singleton _)
    intro id hmem hdata
    obtain ⟨other, hother, rfl⟩ := List.mem_map.mp hmem
    exact hnew other hother ((List.mem_singleton.mp hdata).trans hid)

/-- Completing a running future leaves the completed ones. -/
theorem Completed.set {c : Client} {data : MessageData} (h : Completed msgpack c data) {r : Nat}
    (hrun : c.futures[r]? = some .running) (requests : AList fun _ : Int => Nat)
    (outcome : PyFuture) :
    Completed msgpack { c with requests, futures := c.futures.set r outcome } data := by
  obtain ⟨n, error, result, hresponse, hget⟩ := h
  have hne : r ≠ n.toNat := by
    intro hrn
    rw [← hrn, hrun] at hget
    exact Client.outcome_ne_running _ _ (Option.some.inj hget).symm
  refine ⟨n, error, result, hresponse, ?_⟩
  show (c.futures.set r outcome)[n.toNat]? = _
  rw [List.getElem?_set_ne hne, hget]

/-- **A message that is processed completes its own request**: it takes it out of
the dictionary, and the requests the other messages answer stay there. -/
theorem Serving.readDone (h : s.Serving msgpack) (hs : step msgpack s .readDone = some t) :
    t.Serving msgpack := by
  obtain ⟨k, data, inbox, -, hinbox, rfl⟩ := step_readDone hs
  have hdistinct := h.distinct
  have hawaited := h.awaited
  rw [hinbox, List.map_cons, List.nodup_cons] at hdistinct
  rw [hinbox, List.forall_mem_cons] at hawaited
  obtain ⟨n, hn, hid⟩ := hawaited.1
  obtain ⟨⟨id, error, result⟩, hresponse, rfl⟩ := Option.map_eq_some_iff.mp hid
  obtain ⟨r, hr⟩ := Option.isSome_iff_exists.mp (AList.lookup_isSome.mpr hn)
  obtain ⟨hnr, hrun⟩ := (h.wf.lookup id r).mp hr
  have hlt : r < s.client.futures.length := (List.getElem?_eq_some_iff.mp hrun).1
  have hwf := (h.wf.processMessage msgpack {} data).1.escape
  unfold onRead
  dsimp only
  rw [h.wf.processMessage_response hresponse hr] at hwf ⊢
  refine ⟨hwf, ?_, hdistinct.2, ?_⟩
  · intro other hother
    obtain ⟨q, hq, hqid⟩ := hawaited.2 other hother
    refine ⟨q, AList.mem_erase.mpr ⟨?_, hq⟩, hqid⟩
    intro hqn
    exact hdistinct.1 (List.mem_map.mpr ⟨other, hother, by rw [hqid, hid, hqn]⟩)
  · intro other hother
    rcases List.mem_append.mp hother with hother | hother
    · exact (h.completed other hother).set hrun _ _
    · rw [List.mem_singleton.mp hother]
      refine ⟨id, error, result, hresponse, ?_⟩
      show (s.client.futures.set r _)[id.toNat]? = _
      rw [hnr, Int.toNat_natCast, List.getElem?_set_self hlt]

theorem Serving.step {e : Event} (h : s.Serving msgpack) (he : Answering msgpack s e)
    (hs : step msgpack s e = some t) : t.Serving msgpack := by
  cases e with
  | asyncRequest method args =>
    cases hs
    exact h.asyncRequest method args
  | notify method args =>
    cases hs
    apply h.ofClient (h.wf.notify method args)
    · intro n hn
      unfold Client.notify
      split <;> exact hn
    · intro data hdata
      unfold Client.notify
      split <;> exact hdata
  | sendDone i err =>
    obtain ⟨handler, rfl⟩ := step_sendDone hs
    have hkeep : s.client.onSent i handler err =
        { s.client with sends := s.client.sends.eraseIdx i } := by
      have herr : err.hasError = false := he
      cases handler with
      | onNotificationSent => rfl
      | onRequestSent => simp [Client.onSent, Client.onRequestSent, herr, Client.escape]
    rw [hkeep]
    exact h.ofClient ⟨h.wf.lookup, h.wf.length⟩ (fun _ hn => hn) (fun _ hdata => hdata)
  | arrive data =>
    cases hs
    exact h.arrive he
  | readDone => exact h.readDone hs
  | readFailed err => exact he.elim

/-- **Every message is processed if and only if at most one arrives**: a run without
a read error, to a state in which no read can complete. With at most one message
every request is completed by its response, too. -/
theorem all_processed_iff_at_most_one {es : List Event}
    (hr : (machine msgpack).run (machine msgpack).init es = some s)
    (hread : ∀ e ∈ es, ∀ err, e ≠ .readFailed err) (hidle : s.Idle) :
    (s.processed = s.arrived ∧
      ((machine msgpack).EachStep (Answering msgpack) (machine msgpack).init es →
        ∀ data ∈ s.arrived, Completed msgpack s.client data)) ↔
      s.arrived.length ≤ 1 := by
  have hreading : s.Reading :=
    Machine.run_invariant_of_forall (I := Reading) (fun _ _ _ h he hs => h.step he hs) hread
      ⟨rfl, rfl⟩ hr
  rw [← hreading.processed_iff hidle]
  constructor
  · exact fun h => h.1
  · intro heq
    refine ⟨heq, ?_⟩
    intro hanswering data hdata
    have hserving : s.Serving msgpack :=
      Machine.run_invariant_of_eachStep (I := Serving msgpack) (fun _ _ _ h he hs => h.step he hs)
        hanswering Serving.init hr
    exact hserving.completed data (heq ▸ hdata)

/-- The bytes of a response with a result. -/
def resultData (n : Nat) (value : Int) : MessageData :=
  (msgpackC.packb (packResponse (.int n) .none (.int value))).getD []

/-- Two requests and their two responses. -/
def twoRequests : List Event :=
  [.asyncRequest (ascii "add") [.int 2, .int 3], .asyncRequest (ascii "add") [.int 4, .int 5],
    .arrive (resultData 0 5), .readDone, .arrive (resultData 1 9)]

theorem all_processed_iff_at_most_one_twoRequests :
    ∃ s, (machine msgpackC).run (machine msgpackC).init twoRequests = some s ∧
      ((s.processed = s.arrived ∧
        ((machine msgpackC).EachStep (Answering msgpackC) (machine msgpackC).init twoRequests →
          ∀ data ∈ s.arrived, Completed msgpackC s.client data)) ↔ s.arrived.length ≤ 1) := by
  have hall : ∀ s, (machine msgpackC).run (machine msgpackC).init twoRequests = some s →
      s.reads = 0 → ((s.processed = s.arrived ∧
        ((machine msgpackC).EachStep (Answering msgpackC) (machine msgpackC).init twoRequests →
          ∀ data ∈ s.arrived, Completed msgpackC s.client data)) ↔ s.arrived.length ≤ 1) :=
    fun s hs hreads =>
      all_processed_iff_at_most_one hs (by simp [twoRequests]) (.inr hreads)
  exact ⟨_, rfl, hall _ rfl rfl⟩

/-- The first request gets its result. The second response is never processed: no
read is outstanding, and the future of its request is running. -/
theorem second_response_unread :
    ∃ s, (machine msgpackC).run (machine msgpackC).init twoRequests = some s ∧ s.Idle ∧
      (machine msgpackC).EachStep (Answering msgpackC) (machine msgpackC).init twoRequests ∧
      s.client.futures[0]? = some (.result (.int 5)) ∧ s.client.futures[1]? = some .running ∧
      s.processed ≠ s.arrived := by
  refine ⟨_, rfl, .inr rfl, ?_, rfl, rfl, ?_⟩
  · refine ⟨trivial, fun _ h => ?_⟩
    cases h
    refine ⟨trivial, fun _ h => ?_⟩
    cases h
    refine ⟨⟨0, by decide, rfl, by decide⟩, fun _ h => ?_⟩
    cases h
    refine ⟨trivial, fun _ h => ?_⟩
    cases h
    exact ⟨⟨1, by decide, rfl, by decide⟩, fun _ _ => trivial⟩
  · intro h
    cases congrArg List.length h

end PythonClient

end MpRpc.Python
