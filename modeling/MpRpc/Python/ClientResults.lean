import Mathlib
import MpRpc.Python.ClientLoop

/-!
# ClientResults — how an execution reaches the client

A request that `FunctionMethodExecutor` processes ends with a result or with an
exception. The server tells the two apart by the fields of the response: the
error is `None`, or the text of the exception. The client asks whether the error
is truthy, and the text of an exception may be empty; a text that cannot be packed
makes `process_request` raise, and then there is no response at all.
-/

namespace MpRpc.Python

variable {U W : Type*} {msgpack : MsgpackPackage}

theorem packObject_eq_ok {o : PyObject} {data : MessageData} :
    packObject msgpack o = .ok data ↔ msgpack.packb o = some data := by
  unfold packObject
  split <;> simp_all

namespace FunctionMethodExecutor

/-- How the `try` block of `process_request` ends: with the result that was packed, or
with the exception that is caught. -/
def execute (msgpack : MsgpackPackage) (m : FunctionMethodExecutor U W) (w : W)
    (msgid : PyObject) (params : List PyObject) : Except PyException PyObject :=
  match m.arguments params with
  | .error err => .error err
  | .ok args =>
      match m.call w args with
      | .error err => .error err
      | .ok result =>
          match packObject msgpack (packResponse msgid .none result) with
          | .error err => .error err
          | .ok _ => .ok result

/-- The response tells how the execution ended. -/
theorem processRequest_response (msgpack : MsgpackPackage) (str : PyException → Bytes)
    (m : FunctionMethodExecutor U W) (w : W) (msgid : PyObject) (params : List PyObject) :
    (m.processRequest msgpack str w msgid params).2 =
      match m.execute msgpack w msgid params with
      | .error err => packObject msgpack (packResponse msgid (.str (str err)) .none)
      | .ok result => packObject msgpack (packResponse msgid .none result) := by
  unfold execute processRequest
  cases m.arguments params with
  | error err => rfl
  | ok args =>
    cases hcall : m.call w args with
    | error err => simp only [hcall, answerException]
    | ok result =>
      cases hpack : packObject msgpack (packResponse msgid .none result) with
      | error err => simp only [hcall, hpack, answerException]
      | ok data => simp only [hcall, hpack]

/-- What was executed with a result has been packed. -/
theorem packb_of_execute {m : FunctionMethodExecutor U W} {w : W} {msgid result : PyObject}
    {params : List PyObject} (h : m.execute msgpack w msgid params = .ok result) :
    ∃ data, msgpack.packb (packResponse msgid .none result) = some data := by
  unfold execute at h
  split at h
  · cases h
  · split at h
    · cases h
    · split at h
      · cases h
      · rename_i data hdata
        cases h
        exact ⟨data, packObject_eq_ok.mp hdata⟩

end FunctionMethodExecutor

namespace PythonClient

variable {s : PythonClient}

/-- A response that was packed is read back as it is. -/
theorem response_packResponse {msgid error result : PyObject} {data : MessageData} {n : Int}
    (hid : msgid.asInt = some n) (hn : 0 ≤ n ∧ n ≤ 2 ^ 32 - 1)
    (hdata : msgpack.packb (packResponse msgid error result) = some data) :
    Client.response? msgpack data = some (n, error, result) := by
  have hvalid : validateMessage (packResponse msgid error result) =
      .ok (.response msgid error result) :=
    validateMessage_ok_iff.mpr (.response rfl hid hn)
  simp only [Client.response?, msgpack.unpackb_packb _ _ hdata, hvalid, hid, Option.map_some]

/-- The client after what the server made of a request: without a response it gets
nothing. -/
def delivered (msgpack : MsgpackPackage) (s : Client) :
    Except PyException MessageData → Client
  | .ok data => (s.processMessage msgpack {} data).1
  | .error _ => s

/-- The future shows how the execution ended. -/
def Shows (future : Option PyFuture) : Except PyException PyObject → Prop
  | .error _ => ∃ exc, future = some (.exception exc)
  | .ok result => future = some (.result result)

/-- **A response that is packed completes the future** of its request. -/
theorem delivered_packResponse (hs : (machine msgpack).Reachable s) {msgid error result : PyObject}
    {n : Int} {r : Nat} {data : MessageData} (hid : msgid.asInt = some n)
    (hn : 0 ≤ n ∧ n ≤ 2 ^ 32 - 1) (hr : s.client.requests.lookup n = some r)
    (hdata : msgpack.packb (packResponse msgid error result) = some data) :
    (delivered msgpack s.client
        (packObject msgpack (packResponse msgid error result))).futures[r]? =
      some (Client.outcome error result) := by
  have hwf := reachable_wf hs
  have hlt : r < s.client.futures.length :=
    (List.getElem?_eq_some_iff.mp ((hwf.lookup n r).mp hr).2).1
  rw [packObject_eq_ok.mpr hdata, delivered,
    hwf.processMessage_response (response_packResponse hid hn hdata) hr]
  exact List.getElem?_set_self hlt

/-- The text of an exception of the user's function is its own. -/
def strOf : PyException → Bytes
  | .user str => str
  | .mprpc _ message _ => ascii message
  | .typeError => ascii "takes 0 positional arguments but 1 was given"

/-- A method that raises an exception with this text. -/
def raises (text : Bytes) : FunctionMethodExecutor Empty Unit where
  name := ascii "fail"
  arity := 0
  function _ _ := .error (.user text)

/-- A method that raises an exception without arguments, such as `ValueError()`. -/
def emptyRaise : FunctionMethodExecutor Empty Unit := raises []

/-- The text `'\ud800'`, a surrogate alone. -/
def loneSurrogate : Bytes := [0xED, 0xA0, 0x80]

/-- The client after one request for that method. -/
def oneRequest : List Event := [.asyncRequest (ascii "fail") []]

/-- The bytes of the response of the server. -/
def emptyRaiseData : MessageData :=
  (msgpackC.packb (packResponse (.int 0) (.str []) .none)).getD []

end PythonClient

end MpRpc.Python
