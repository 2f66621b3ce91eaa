import Mathlib
import MpRpc.Machine
import MpRpc.Python.Packing

/-!
# Client — the client in Python

`Client` of `_client.py` over `python_client_helper`. `async_request` packs, sends
and registers under the lock; what `_process_message` does after it released the
lock concerns the future it took out of the dictionary only. So each function is
one step. The dictionary `__requests` holds the futures by their position in
`futures`, which lists them in the order in which they were returned.

`python_client_helper::start` issues one `async_read`. Its handler calls
`message_processor_` and does nothing else, and `_process_message` does not read
either.
-/

namespace MpRpc.Python

/-- `bool(x)`. -/
def PyObject.truthy : PyObject → Bool
  | .none => false
  | .bool b => b
  | .int n => n ≠ 0
  -- both zeros are false
  | .float bits => bits ≠ 0 && bits ≠ 0x8000000000000000
  | .str s => s ≠ []
  | .bytes s => s ≠ []
  | .list xs => !xs.isEmpty
  | .dict kvs => !kvs.isEmpty
  | .ext _ _ => true

/-- An exception set on a future. -/
inductive FutureException where
  /-- `ServerError` -/
  | server (error : PyObject)
  /-- `MPRPCException` -/
  | mprpc (err : ErrorInfo)

/-- A `Future` after `set_running_or_notify_cancel`. -/
inductive PyFuture where
  | running
  | exception (exc : FutureException)
  | result (value : PyObject)

/-- An exception raised while a message is processed. -/
inductive Raised where
  /-- `MPRPCException` of an `ErrorInfo` -/
  | mprpc (info : ErrorInfo)
  /-- the `MPRPCException` of `validate_message` -/
  | parse (err : ParseError)
  /-- `KeyError` of `self.__requests[msgid]` -/
  | key (msgid : Int)
  /-- `InvalidStateError` of a future that is done -/
  | invalidState

/-- What `async_send` calls when the message was sent. -/
inductive SendHandler where
  | onRequestSent
  | onNotificationSent

/-- The members of `Client`, what its connector is doing for it, and the exceptions
that left `_process_message` or `_on_request_sent`. -/
structure Client where
  requests : AList (fun _ : Int => Nat) := ∅
  nextMsgid : Nat := 0
  futures : List PyFuture := []
  sends : List (SendHandler × MessageData) := []
  raised : List Raised := []

namespace Client

variable {msgpack : MsgpackPackage} {s t : Client}

/-- The object `pack_request` packs. -/
def packRequest (msgid : Nat) (method : Bytes) (args : List PyObject) : PyObject :=
  .list [.int 0, .int msgid, .str method, .list args]

/-- The object `pack_notification` packs. -/
def packNotification (method : Bytes) (args : List PyObject) : PyObject :=
  .list [.int 2, .str method, .list args]

/-- `impl.async_send`. -/
def asyncSend (s : Client) (handler : SendHandler) (data : MessageData) : Client :=
  { s with sends := s.sends ++ [(handler, data)] }

/-- `async_request`. If `pack_request` raises, nothing has happened yet. -/
def asyncRequest (msgpack : MsgpackPackage) (s : Client) (method : Bytes)
    (args : List PyObject) : Client :=
  match msgpack.packb (packRequest s.nextMsgid method args) with
  | none => s
  | some data =>
      { s.asyncSend .onRequestSent data with
        futures := s.futures ++ [.running]
        nextMsgid := s.nextMsgid + 1
        requests := s.requests.insert s.nextMsgid s.futures.length }

/-- `notify`. -/
def notify (msgpack : MsgpackPackage) (s : Client) (method : Bytes) (args : List PyObject) :
    Client :=
  match msgpack.packb (packNotification method args) with
  | none => s
  | some data => s.asyncSend .onNotificationSent data

/-- `set_exception` and `set_result` of future `r`. -/
def settle (s : Client) (r : Nat) (outcome : PyFuture) : Except Raised Client :=
  match s.futures[r]? with
  | some .running => .ok { s with futures := s.futures.set r outcome }
  | _ => .error .invalidState

/-- `for future in self.__requests.values(): future.set_exception(MPRPCException(err))`
and `self.__requests = dict()`. -/
def failAll (err : ErrorInfo) : List Nat → Client → Client × Option Raised
  | [], s => ({ s with requests := ∅ }, none)
  | r :: rs, s =>
      match s.settle r (.exception (.mprpc err)) with
      | .ok s => failAll err rs s
      | .error raised => (s, some raised)

/-- `self.__requests.values()` -/
def values (s : Client) : List Nat := s.requests.entries.map Sigma.snd

/-- `_on_request_sent`. -/
def onRequestSent (s : Client) (err : ErrorInfo) : Client × Option Raised :=
  if err.hasError then failAll err s.values s else (s, none)

/-- `unpack_object`. -/
def unpackObject (msgpack : MsgpackPackage) (data : MessageData) : Except Raised PyObject :=
  match msgpack.unpackb data with
  | some o => .ok o
  | none => .error (.mprpc (.of .parseError "error in unpacking data"))

/-- How a response completes its future: an error is one if it is truthy. -/
def outcome (error result : PyObject) : PyFuture :=
  if error.truthy then .exception (.server error) else .result result

/-- A response takes its future out of the dictionary and completes it. -/
def complete (s : Client) (n : Int) (error result : PyObject) : Client × Option Raised :=
  match s.requests.lookup n with
  -- after the warning the dictionary is read all the same
  | none => (s, some (.key n))
  | some r =>
      let s := { s with requests := s.requests.erase n }
      match s.settle r (outcome error result) with
      | .ok s => (s, none)
      | .error raised => (s, some raised)

/-- The `try` block of `_process_message`: the client, which an exception leaves as
it has become. -/
def receive (msgpack : MsgpackPackage) (s : Client) (err : ErrorInfo) (data : MessageData) :
    Client × Option Raised :=
  if err.hasError then (s, some (.mprpc err))
  else
    match unpackObject msgpack data with
    | .error raised => (s, some raised)
    | .ok o =>
        match validateMessage o with
        | .error parse => (s, some (.parse parse))
        | .ok (.response msgid error result) =>
            match msgid.asInt with
            -- not reached: `validate_message` has checked it
            | none => (s, none)
            | some n => s.complete n error result
        | .ok _ =>
            (s, some (.mprpc
              (.of .invalidMessage "received a message which is not a response")))

/-- `_process_message`. The `except` clause sets the argument `err`, not the
exception it caught. -/
def processMessage (msgpack : MsgpackPackage) (s : Client) (err : ErrorInfo)
    (data : MessageData) : Client × Option Raised :=
  match s.receive msgpack err data with
  | (s, some (.mprpc _)) | (s, some (.parse _)) => failAll err s.values s
  | out => out

/-- An exception leaves a function called from the C++ side. -/
def escape : Client × Option Raised → Client
  | (s, none) => s
  | (s, some raised) => { s with raised := s.raised ++ [raised] }

/-- The outstanding send `i` completes. -/
def onSent (s : Client) (i : Nat) (handler : SendHandler) (err : ErrorInfo) : Client :=
  let s := { s with sends := s.sends.eraseIdx i }
  match handler with
  -- an error is only logged
  | .onNotificationSent => s
  | .onRequestSent => escape (s.onRequestSent err)

/-! ## The dictionary holds the running futures -/

/-- The dictionary is exactly the running futures, each under its position. -/
structure Wf (s : Client) : Prop where
  lookup : ∀ (n : Int) (r : Nat),
    s.requests.lookup n = some r ↔ n = r ∧ s.futures[r]? = some .running
  length : s.futures.length = s.nextMsgid

theorem Wf.init : Wf {} where
  lookup n r := by simp
  length := rfl

theorem Wf.asyncRequest (h : s.Wf) (method : Bytes) (args : List PyObject) :
    (s.asyncRequest msgpack method args).Wf := by
  unfold Client.asyncRequest
  cases hdata : msgpack.packb (packRequest s.nextMsgid method args) with
  | none => exact h
  | some data =>
    constructor
    · intro n r
      show (s.requests.insert (s.nextMsgid : Int) s.futures.length).lookup n = some r ↔
        n = r ∧ (s.futures ++ [PyFuture.running])[r]? = some .running
      rw [← h.length]
      by_cases hn : n = s.futures.length
      · subst hn
        rw [AList.lookup_insert]
        constructor
        · intro hr
          cases hr
          simp
        · intro hr
          have : s.futures.length = r := by exact_mod_cast hr.1
          rw [this]
      · rw [AList.lookup_insert_ne hn, h.lookup]
        apply and_congr_right
        intro hnr
        by_cases hr : r < s.futures.length
        · rw [List.getElem?_append_left hr]
        · have hne : r ≠ s.futures.length := fun e => hn (by rw [hnr, e])
          simp [List.getElem?_eq_none (show s.futures.length ≤ r by omega),
            List.getElem?_eq_none (show (s.futures ++ [PyFuture.running]).length ≤ r by
              rw [List.length_append, List.length_singleton]; omega)]
    · show (s.futures ++ [PyFuture.running]).length = s.nextMsgid + 1
      simp [h.length]

/-- A future leaves the dictionary when it is completed. -/
theorem Wf.take (h : s.Wf) {n : Int} {r : Nat} (hr : s.requests.lookup n = some r)
    {outcome : PyFuture} (hdone : outcome ≠ .running) :
    Wf { s with requests := s.requests.erase n, futures := s.futures.set r outcome } := by
  obtain ⟨hn, hrun⟩ := (h.lookup n r).mp hr
  have hlt : r < s.futures.length := (List.getElem?_eq_some_iff.mp hrun).1
  constructor
  · intro m q
    show (s.requests.erase n).lookup m = some q ↔ m = q ∧ (s.futures.set r outcome)[q]? = _
    by_cases hm : m = n
    · subst hm
      rw [AList.lookup_erase]
      simp only [reduceCtorEq, false_iff, not_and]
      intro hq
      have hqr : q = r := by exact_mod_cast hq.symm.trans hn
      rw [hqr, List.getElem?_set_self hlt]
      simpa using hdone
    · rw [AList.lookup_erase_ne hm, h.lookup]
      apply and_congr_right
      intro hq
      have hqr : r ≠ q := fun e => hm (by rw [hq, hn, e])
      rw [List.getElem?_set_ne hqr]
  · show (s.futures.set r outcome).length = s.nextMsgid
    rw [List.length_set, h.length]

theorem mem_values {r : Nat} : r ∈ s.values ↔ ∃ n, s.requests.lookup n = some r := by
  simp only [values, List.mem_map]
  constructor
  · intro h
    obtain ⟨entry, hentry, rfl⟩ := h
    exact ⟨entry.1, AList.mem_lookup_iff.mpr hentry⟩
  · intro h
    obtain ⟨n, hn⟩ := h
    exact ⟨⟨n, r⟩, AList.mem_lookup_iff.mp hn, rfl⟩

theorem Wf.nodup_values (h : s.Wf) : s.values.Nodup := by
  apply List.Nodup.map_on _ s.requests.nodupKeys.nodup
  intro x hx y hy hxy
  have hkey : ∀ z ∈ s.requests.entries, z.1 = z.2 := fun z hz =>
    ((h.lookup z.1 z.2).mp (AList.mem_lookup_iff.mpr hz)).1
  exact Sigma.ext ((hkey x hx).trans (by rw [hxy, hkey y hy])) (heq_of_eq hxy)

/-- The loop over distinct running futures raises nothing. -/
theorem failAll_spec (err : ErrorInfo) {rs : List Nat} (hnodup : rs.Nodup)
    (hrun : ∀ r ∈ rs, s.futures[r]? = some .running) :
    ∃ futures, failAll err rs s = ({ s with requests := ∅, futures }, none) ∧
      futures.length = s.futures.length ∧
      ∀ q, futures[q]? = if q ∈ rs then some (.exception (.mprpc err)) else s.futures[q]? := by
  induction rs generalizing s with
  | nil => exact ⟨s.futures, rfl, rfl, by simp⟩
  | cons r rs ih =>
    obtain ⟨hr, hnodup⟩ := List.nodup_cons.mp hnodup
    have hhead := hrun r List.mem_cons_self
    have hlt : r < s.futures.length := (List.getElem?_eq_some_iff.mp hhead).1
    let u : Client := { s with futures := s.futures.set r (.exception (.mprpc err)) }
    have hu : ∀ q ∈ rs, u.futures[q]? = some .running := by
      intro q hq
      have hne : r ≠ q := fun e => hr (e ▸ hq)
      show (s.futures.set r _)[q]? = _
      rw [List.getElem?_set_ne hne]
      exact hrun q (List.mem_cons_of_mem _ hq)
    obtain ⟨futures, hfail, hlength, hget⟩ := ih hnodup hu
    have hsettle : s.settle r (.exception (.mprpc err)) = .ok u := by
      unfold settle
      rw [hhead]
    refine ⟨futures, ?_, ?_, ?_⟩
    · rw [failAll, hsettle]
      exact hfail
    · rw [hlength]
      exact List.length_set
    · intro q
      rw [hget q]
      show (if q ∈ rs then _ else (s.futures.set r _)[q]?) = _
      by_cases hq : q = r
      · subst hq
        simp [hr, List.getElem?_set_self hlt]
      · simp [hq, List.getElem?_set_ne (Ne.symm hq)]

/-- **`set_exception` of all futures** raises nothing and leaves no future running. -/
theorem Wf.failAll (h : s.Wf) (err : ErrorInfo) :
    (Client.failAll err s.values s).1.Wf ∧ (Client.failAll err s.values s).2 = none := by
  have hrun : ∀ r ∈ s.values, s.futures[r]? = some .running := by
    intro r hr
    obtain ⟨n, hn⟩ := mem_values.mp hr
    exact ((h.lookup n r).mp hn).2
  obtain ⟨futures, hfail, hlength, hget⟩ := failAll_spec err h.nodup_values hrun
  rw [hfail]
  refine ⟨⟨?_, ?_⟩, rfl⟩
  · intro n r
    show (∅ : AList fun _ : Int => Nat).lookup n = some r ↔ n = r ∧ futures[r]? = _
    rw [hget r, AList.lookup_empty]
    simp only [reduceCtorEq, false_iff, not_and]
    intro hn
    split
    · simp
    · rename_i hr
      intro hrunning
      exact hr (mem_values.mpr ⟨r, (h.lookup r r).mpr ⟨rfl, hrunning⟩⟩)
  · show futures.length = s.nextMsgid
    rw [hlength, h.length]

theorem outcome_ne_running (error result : PyObject) : outcome error result ≠ .running := by
  unfold outcome
  split <;> simp

/-! ## One message -/

/-- The message ID, the error and the result of a message that is a response. -/
def response? (msgpack : MsgpackPackage) (data : MessageData) :
    Option (Int × PyObject × PyObject) :=
  match msgpack.unpackb data with
  | none => none
  | some o =>
      match validateMessage o with
      | .ok (.response msgid error result) => msgid.asInt.map (·, error, result)
      | _ => none

theorem receive_response {data : MessageData} {n : Int} {error result : PyObject}
    (hdata : response? msgpack data = some (n, error, result)) :
    s.receive msgpack {} data = s.complete n error result := by
  unfold response? at hdata
  split at hdata
  · cases hdata
  · rename_i o ho
    split at hdata
    · rename_i msgid error' result' hmsg
      obtain ⟨m, hm, heq⟩ := Option.map_eq_some_iff.mp hdata
      cases heq
      simp only [receive, unpackObject, ho, hmsg, hm]
      rfl
    · cases hdata

theorem Wf.complete (h : s.Wf) {n : Int} {r : Nat} (hr : s.requests.lookup n = some r)
    (error result : PyObject) :
    s.complete n error result =
      ({ s with
          requests := s.requests.erase n
          futures := s.futures.set r (outcome error result) }, none) := by
  simp only [Client.complete, hr, Client.settle, ((h.lookup n r).mp hr).2]

/-- **A response completes its own future** and no other. -/
theorem Wf.processMessage_response (h : s.Wf) {data : MessageData} {n : Int} {r : Nat}
    {error result : PyObject} (hdata : response? msgpack data = some (n, error, result))
    (hr : s.requests.lookup n = some r) :
    s.processMessage msgpack {} data =
      ({ s with
          requests := s.requests.erase n
          futures := s.futures.set r (outcome error result) }, none) := by
  unfold processMessage
  rw [receive_response hdata, h.complete hr]

/-- The `try` block raises and changes nothing, or completes the future of a
response. -/
theorem Wf.receive_cases (h : s.Wf) (msgpack : MsgpackPackage) (err : ErrorInfo)
    (data : MessageData) :
    s.receive msgpack err data = (s, none) ∨
    (∃ raised, s.receive msgpack err data = (s, some raised) ∧ raised ≠ .invalidState) ∨
    ∃ n r error result, s.requests.lookup n = some r ∧
      s.receive msgpack err data =
        ({ s with
            requests := s.requests.erase n
            futures := s.futures.set r (outcome error result) }, none) := by
  unfold receive
  by_cases herr : err.hasError
  · exact .inr (.inl ⟨_, if_pos herr, by simp⟩)
  rw [if_neg herr]
  cases ho : unpackObject msgpack data with
  | error raised =>
    refine .inr (.inl ⟨raised, rfl, ?_⟩)
    unfold unpackObject at ho
    split at ho
    · cases ho
    · cases ho
      simp
  | ok o =>
    dsimp only
    split
    · exact .inr (.inl ⟨_, rfl, by simp⟩)
    · rename_i msgid error result hmsg
      cases hid : msgid.asInt with
      | none => exact .inl rfl
      | some n =>
        cases hr : s.requests.lookup n with
        | none =>
          have heq : s.complete n error result = (s, some (.key n)) := by
            simp only [Client.complete, hr]
          exact .inr (.inl ⟨_, heq, by simp⟩)
        | some r => exact .inr (.inr ⟨n, r, error, result, hr, h.complete hr error result⟩)
    · exact .inr (.inl ⟨_, rfl, by simp⟩)

/-- **A message keeps the dictionary**, and `KeyError` is the only exception that
leaves `_process_message`. -/
theorem Wf.processMessage (h : s.Wf) (msgpack : MsgpackPackage) (err : ErrorInfo)
    (data : MessageData) :
    (s.processMessage msgpack err data).1.Wf ∧
      ∀ raised, (s.processMessage msgpack err data).2 = some raised → ∃ n, raised = .key n := by
  unfold Client.processMessage
  rcases h.receive_cases msgpack err data with
    heq | ⟨raised, heq, hne⟩ | ⟨n, r, error, result, hr, heq⟩
  · rw [heq]
    exact ⟨h, by simp⟩
  · rw [heq]
    cases raised with
    | mprpc _ | parse _ =>
      obtain ⟨hwf, hnone⟩ := h.failAll err
      exact ⟨hwf, by simp [hnone]⟩
    | key n => exact ⟨h, fun raised hraised => ⟨n, by simpa using hraised.symm⟩⟩
    | invalidState => exact absurd rfl hne
  · rw [heq]
    exact ⟨h.take hr (outcome_ne_running error result), by simp⟩

theorem Wf.escape {out : Client × Option Raised} (h : out.1.Wf) : (Client.escape out).Wf := by
  obtain ⟨c, raised⟩ := out
  cases raised with
  | none => exact h
  | some raised => exact ⟨h.lookup, h.length⟩

theorem Wf.notify (h : s.Wf) (method : Bytes) (args : List PyObject) :
    (s.notify msgpack method args).Wf := by
  unfold Client.notify
  split
  · exact h
  · exact ⟨h.lookup, h.length⟩

theorem Wf.onSent (h : s.Wf) (i : Nat) (handler : SendHandler) (err : ErrorInfo) :
    (s.onSent i handler err).Wf := by
  have hrest : Wf { s with sends := s.sends.eraseIdx i } := ⟨h.lookup, h.length⟩
  cases handler with
  | onNotificationSent => exact hrest
  | onRequestSent =>
    apply Wf.escape
    unfold onRequestSent
    split
    · exact (hrest.failAll err).1
    · exact hrest

end Client

end MpRpc.Python
