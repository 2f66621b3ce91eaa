import MpRpc.Execution
import MpRpc.Python.Agreement
import MpRpc.Python.ClientResults

/-!
# ServerAgreement — two servers of one set of methods

`simple_method_server` and `SimpleMethodServer` given the same registrations.
A registration pairs an executor of each side, and `Alike` says that the two
functions behave the same. The servers are compared by the call of their
handler: which function was called, whether there is a response, and what a
response says.

Whether the function is called is decided before it by each language in its own
way. msgpack-c converts each parameter to a C++ type; Python reads the whole
message first, and then asks the schemas, if there are any. `Comparable` says
what a message must be like for the two to come to the same.
-/

namespace MpRpc.Python

open Msgpack

variable {A U W : Type*}

/-- The two functions have the same name and number of parameters, and on parameters that
both can be called with both return or both throw. -/
structure Alike (cpp : MethodExecutor A W) (py : FunctionMethodExecutor U W) : Prop where
  name : py.name = cpp.name
  arity : py.arity = cpp.params.length
  behaves : ∀ w params args pyArgs, convertParams cpp.params params = some args →
    py.arguments (ofObjects params) = .ok pyArgs →
    ((∃ result, cpp.function w args = .returned result) ↔ ∃ result, py.call w pyArgs = .ok result)

/-- One method registered with both servers. -/
structure Registration (A U W : Type*) where
  cpp : MethodExecutor A W
  py : FunctionMethodExecutor U W
  alike : Alike cpp py

/-- The two servers built from the same list. -/
def cppServer (regs : List (Registration A U W)) : MpRpc.SimpleMethodServer A W :=
  .ofMethods (regs.map Registration.cpp)

def pyServer (regs : List (Registration A U W)) : SimpleMethodServer U W :=
  .ofMethods (regs.map Registration.py)

/-- A well-formed request or notification. -/
inductive CallMessage where
  | request (msgid : Msgid) (method : Bytes) (params : List Object)
  | notification (method : Bytes) (params : List Object)

namespace CallMessage

def method : CallMessage → Bytes
  | .request _ method _ => method
  | .notification method _ => method

def params : CallMessage → List Object
  | .request _ _ params => params
  | .notification _ params => params

def isRequest : CallMessage → Bool
  | .request .. => true
  | .notification .. => false

/-- The object that is sent. -/
def object : CallMessage → Object
  | .request msgid method params =>
      .array [MsgType.request.toObject, msgidObject msgid, .str method, .array params]
  | .notification method params =>
      .array [MsgType.notification.toObject, .str method, .array params]

end CallMessage

/-- The servers called their handlers the same way: the same function or none was
called, and both give a response or neither does; two responses have the same
msgid, and both have an error or neither has. -/
structure SameHandling (msgpack : MsgpackPackage) (cpp : MpRpc.SimpleMethodServer.Processed A)
    (py : PyProcessed U) : Prop where
  invoked : cpp.invocation.map Invocation.method = py.invocation.map PyInvocation.method
  handled : ∃ call, cpp.handled = .ok call ∧ call.responseExists = py.call.hasResponse ∧
    (call.responseExists = true → ∃ reply msgid error result,
      Message.ofData call.response = .ok reply ∧ reply.type = some .response ∧
      msgpack.unpackb py.call.response = some (packResponse msgid error result) ∧
      msgid = .int reply.msgid.toNat ∧ (reply.hasError = .ok true ↔ error ≠ .none))

/-- The response that a request calls for, as `pack_response` is to pack it: with the
result, or with the text of the exception. -/
def FunctionMethodExecutor.response (str : PyException → Bytes) (m : FunctionMethodExecutor U W)
    (w : W) (msgid : PyObject) (params : List PyObject) : PyObject :=
  match m.arguments params with
  | .error err => packResponse msgid (.str (str err)) .none
  | .ok args =>
      match m.call w args with
      | .error err => packResponse msgid (.str (str err)) .none
      | .ok result => packResponse msgid .none result

/-- The message is one that both servers can take. -/
structure Comparable (msgpack : MsgpackPackage) (str : PyException → Bytes)
    (regs : List (Registration A U W)) (w : W) (m : CallMessage) : Prop where
  /-- Python can read it. -/
  read : msgpack.unpackb (pack m.object) = some (ofObject m.object)
  /-- The method name has one meaning. -/
  one : ∀ r ∈ regs, ∀ r' ∈ regs, r.cpp.name = m.method → r'.cpp.name = m.method → r = r'
  /-- A request names a method of the servers. -/
  known : m.isRequest = true → ∃ r ∈ regs, r.cpp.name = m.method
  /-- The C++ function can be called with the parameters, as far as they are there and it
  has them, exactly if the Python function can: they are as many as it has, and its
  schemas take them. -/
  converts : ∀ r ∈ regs, r.cpp.name = m.method →
    ((∃ args, convertParams r.cpp.params m.params = some args) ↔
      ∃ args, r.py.arguments (ofObjects m.params) = .ok args)
  /-- Python can pack the response to a request. -/
  packs : ∀ id method params, m = .request id method params →
    ∀ r ∈ regs, r.cpp.name = method →
      ∃ data, msgpack.packb (r.py.response str w (.int id.toNat) (ofObjects params)) = some data

/-! ## Which method is found -/

/-- With one meaning for the name, first and last registration are the same. -/
theorem find_reverse {α : Type*} {p : α → Bool} {l : List α}
    (h : ∀ x ∈ l, ∀ y ∈ l, p x = true → p y = true → x = y) :
    l.reverse.find? p = l.find? p := by
  cases hf : l.find? p with
  | none =>
    rw [List.find?_eq_none] at hf ⊢
    exact fun x hx => hf x (List.mem_reverse.mp hx)
  | some x =>
    cases hr : l.reverse.find? p with
    | none =>
      rw [List.find?_eq_none] at hr
      exact absurd (List.find?_some hf) (hr x (List.mem_reverse.mpr (List.mem_of_find?_eq_some hf)))
    | some y =>
      rw [h x (List.mem_of_find?_eq_some hf) y
        (List.mem_reverse.mp (List.mem_of_find?_eq_some hr)) (List.find?_some hf)
        (List.find?_some hr)]

/-- Both servers find the executors of the same registration. -/
theorem lookup_same {regs : List (Registration A U W)} {name : Bytes}
    (h : ∀ r ∈ regs, ∀ r' ∈ regs, r.cpp.name = name → r'.cpp.name = name → r = r') :
    (cppServer regs).methods.lookup name =
        (regs.find? fun r => r.cpp.name = name).map Registration.cpp ∧
      (pyServer regs).methods.lookup name =
        (regs.find? fun r => r.cpp.name = name).map Registration.py := by
  constructor
  · rw [cppServer, MpRpc.SimpleMethodServer.lookup_ofMethods, List.find?_map]
    rfl
  · rw [pyServer, SimpleMethodServer.lookup_ofMethods, ← List.map_reverse, List.find?_map]
    have hname : ((fun m : FunctionMethodExecutor U W => decide (m.name = name)) ∘
        Registration.py) = fun r : Registration A U W => decide (r.cpp.name = name) := by
      funext r
      simp only [Function.comp_apply, r.alike.name]
    rw [hname, find_reverse]
    simpa using h

/-! ## One method on both sides -/

section

variable {cpp : MethodExecutor A W} {py : FunctionMethodExecutor U W} {params : List Object}

/-- The function of a registration is called by both servers or by neither. -/
theorem converts_cases
    (h : (∃ args, convertParams cpp.params params = some args) ↔
      ∃ args, py.arguments (ofObjects params) = .ok args) :
    convertParams cpp.params params = none ∧ (∃ err, py.arguments (ofObjects params) = .error err) ∨
      ∃ args pyArgs, convertParams cpp.params params = some args ∧
        py.arguments (ofObjects params) = .ok pyArgs := by
  cases hc : convertParams cpp.params params with
  | none =>
    cases hp : py.arguments (ofObjects params) with
    | error err => exact .inl ⟨rfl, err, rfl⟩
    | ok pyArgs =>
      obtain ⟨args, hargs⟩ := h.mpr ⟨pyArgs, hp⟩
      rw [hc] at hargs
      cases hargs
  | some args =>
    obtain ⟨pyArgs, hp⟩ := h.mp ⟨args, hc⟩
    exact .inr ⟨args, pyArgs, rfl, hp⟩

/-- A response that can be packed is the one that `process_request` returns. -/
theorem processRequest_of_packb {msgpack : MsgpackPackage} (str : PyException → Bytes)
    (m : FunctionMethodExecutor U W) (w : W) (msgid : PyObject) (params : List PyObject)
    {data : MessageData} (h : msgpack.packb (m.response str w msgid params) = some data) :
    (m.processRequest msgpack str w msgid params).2 = .ok data := by
  unfold FunctionMethodExecutor.response at h
  unfold FunctionMethodExecutor.processRequest
  cases hargs : m.arguments params with
  | error err =>
    rw [hargs] at h
    exact packObject_eq_ok.mpr h
  | ok args =>
    rw [hargs] at h
    cases hcall : m.call w args with
    | error err =>
      simp only [hcall] at h ⊢
      exact packObject_eq_ok.mpr h
    | ok result =>
      simp only [hcall] at h ⊢
      rw [packObject_eq_ok.mpr h]

/-- The responses of the two executors to one request. -/
theorem Alike.processRequest (h : Alike cpp py) (msgpack : MsgpackPackage)
    (str : PyException → Bytes) (w : W) (id : Msgid)
    (hconverts : (∃ args, convertParams cpp.params params = some args) ↔
      ∃ args, py.arguments (ofObjects params) = .ok args)
    {msg : Message} (hparams : msg.params = some (.array params)) :
    (cpp.invoke w msg).map Invocation.method =
        (py.processRequest msgpack str w (.int id.toNat) (ofObjects params)).1.map
          PyInvocation.method ∧
      ∃ error result, py.response str w (.int id.toNat) (ofObjects params) =
          packResponse (.int id.toNat) error result ∧
        ((cpp.invoke w msg = none ∨
            ∃ i what, cpp.invoke w msg = some i ∧ i.outcome = .threw what) ↔ error ≠ .none) := by
  rcases converts_cases hconverts with ⟨hc, err, hp⟩ | ⟨args, pyArgs, hc, hp⟩
  · have hinv : cpp.invoke w msg = none := by
      simp [MethodExecutor.invoke, MethodExecutor.paramsAs, hparams, hc]
    simp only [FunctionMethodExecutor.processRequest, FunctionMethodExecutor.response, hp, hinv]
    exact ⟨rfl, _, _, rfl, by simp⟩
  · have hinv : cpp.invoke w msg = some ⟨cpp.name, args, cpp.function w args⟩ := by
      simp [MethodExecutor.invoke, MethodExecutor.paramsAs, hparams, hc]
    have hboth := h.behaves w params args pyArgs hc hp
    simp only [FunctionMethodExecutor.processRequest, FunctionMethodExecutor.response, hp, hinv]
    refine ⟨by simp [h.name], ?_⟩
    cases ho : cpp.function w args with
    | returned result =>
      obtain ⟨pyResult, hr⟩ := hboth.mp ⟨result, ho⟩
      rw [hr]
      exact ⟨_, _, rfl, by simp⟩
    | threw what =>
      cases hr : py.call w pyArgs with
      | ok pyResult =>
        obtain ⟨result, hret⟩ := hboth.mpr ⟨pyResult, hr⟩
        simp [ho] at hret
      | error err =>
        refine ⟨_, _, rfl, ?_⟩
        simp only [reduceCtorEq, false_or, ne_eq, not_false_eq_true, iff_true]
        exact ⟨_, what, rfl, rfl⟩

theorem Alike.processNotification (h : Alike cpp py) (w : W)
    (hconverts : (∃ args, convertParams cpp.params params = some args) ↔
      ∃ args, py.arguments (ofObjects params) = .ok args)
    {msg : Message} (hparams : msg.params = some (.array params)) :
    (cpp.invoke w msg).map Invocation.method =
      (py.processNotification (ofObjects params)).map PyInvocation.method := by
  rcases converts_cases hconverts with ⟨hc, err, hp⟩ | ⟨args, pyArgs, hc, hp⟩
  · simp [MethodExecutor.invoke, MethodExecutor.paramsAs, hparams, hc,
      FunctionMethodExecutor.processNotification, hp]
  · simp [MethodExecutor.invoke, MethodExecutor.paramsAs, hparams, hc,
      FunctionMethodExecutor.processNotification, hp, h.name]

end

/-! ## The servers -/

/-- Python reads the message as it was sent. -/
theorem validateMessage_request (id : Msgid) (method : Bytes) (params : List Object) :
    validateMessage (ofObject (CallMessage.request id method params).object) =
      .ok (.request (.int id.toNat) method (ofObjects params)) := by
  have hid : ofObject (msgidObject id) = .int id.toNat := by
    simp [msgidObject, ofObject, ofScalar]
  have hlt := id.toNat_lt
  rw [validateMessage_ok_iff, CallMessage.object, ofObject, ofObjects, ofObjects, hid]
  exact .request rfl rfl ⟨by omega, by omega⟩

theorem validateMessage_notification (method : Bytes) (params : List Object) :
    validateMessage (ofObject (CallMessage.notification method params).object) =
      .ok (.notification method (ofObjects params)) :=
  validateMessage_ok_iff.mpr (.notification rfl)

section

variable {msgpack : MsgpackPackage} {str : PyException → Bytes} {regs : List (Registration A U W)}
  {w : W} {method : Bytes} {params : List Object} {msg : Message}

theorem sameHandling_request {id : Msgid}
    (h : Comparable msgpack str regs w (.request id method params))
    (htype : msg.type = some .request) (hid : msg.msgid = id) (hmethod : msg.method = method)
    (hparams : msg.params = some (.array params)) :
    SameHandling msgpack ((cppServer regs).doProcessMessage true w msg)
      ((pyServer regs).processMessage msgpack str w
        (pack (CallMessage.request id method params).object)) := by
  subst hmethod
  have hone : ∀ r ∈ regs, ∀ r' ∈ regs, r.cpp.name = msg.method → r'.cpp.name = msg.method →
      r = r' := h.one
  obtain ⟨hcpp, hpy⟩ := lookup_same hone
  cases hf : regs.find? fun r => r.cpp.name = msg.method with
  | none =>
    obtain ⟨r, hr, hname⟩ : ∃ r ∈ regs, r.cpp.name = msg.method := h.known rfl
    rw [List.find?_eq_none] at hf
    exact absurd hname (by simpa using hf r hr)
  | some r =>
    have hmem := List.mem_of_find?_eq_some hf
    have hname : r.cpp.name = msg.method := by simpa using List.find?_some hf
    have hobject : unpackObject msgpack (pack (CallMessage.request id msg.method params).object) =
        .ok (ofObject (CallMessage.request id msg.method params).object) := by
      simp only [unpackObject, h.read]
    rw [hf, Option.map_some] at hcpp hpy
    obtain ⟨hinv, error, result, hresp, herror⟩ := r.alike.processRequest msgpack str w id
      (h.converts r hmem hname) hparams
    obtain ⟨data, hdata⟩ := h.packs id msg.method params rfl r hmem hname
    have hsent := processRequest_of_packb str r.py w _ _ hdata
    have hread := MethodExecutor.ofData_respond msg.msgid (r.cpp.invoke w msg)
    have herror' := MethodExecutor.hasError_answer msg.msgid (r.cpp.invoke w msg)
    simp only [MpRpc.SimpleMethodServer.doProcessMessage, htype, hcpp,
      SimpleMethodServer.processMessage, hobject, validateMessage_request, hpy, Bool.not_true,
      Bool.false_eq_true, if_false, MethodExecutor.processRequest, hsent]
    refine ⟨hinv, _, rfl, rfl, fun _ => ?_⟩
    refine ⟨_, .int id.toNat, error, result, hread, rfl, ?_, by rw [← hid]; rfl,
      herror'.trans herror⟩
    rw [← hresp]
    exact msgpack.unpackb_packb _ _ hdata

theorem sameHandling_notification (h : Comparable msgpack str regs w (.notification method params))
    (htype : msg.type = some .notification) (hmethod : msg.method = method)
    (hparams : msg.params = some (.array params)) :
    SameHandling msgpack ((cppServer regs).doProcessMessage true w msg)
      ((pyServer regs).processMessage msgpack str w
        (pack (CallMessage.notification method params).object)) := by
  subst hmethod
  have hone : ∀ r ∈ regs, ∀ r' ∈ regs, r.cpp.name = msg.method → r'.cpp.name = msg.method →
      r = r' := h.one
  obtain ⟨hcpp, hpy⟩ := lookup_same hone
  have hobject : unpackObject msgpack (pack (CallMessage.notification msg.method params).object) =
      .ok (ofObject (CallMessage.notification msg.method params).object) := by
    simp only [unpackObject, h.read]
  simp only [MpRpc.SimpleMethodServer.doProcessMessage, htype, hcpp,
    SimpleMethodServer.processMessage, hobject, validateMessage_notification, hpy, Bool.not_true,
    Bool.false_eq_true, if_false]
  cases hf : regs.find? fun r => r.cpp.name = msg.method with
  | none =>
    exact ⟨rfl, MpRpc.SimpleMethodServer.methodNotFound msg.method, rfl, rfl,
      fun hno => by cases hno⟩
  | some r =>
    have hname : r.cpp.name = msg.method := by simpa using List.find?_some hf
    refine ⟨?_, ⟨{}, false, []⟩, rfl, rfl, fun hno => by cases hno⟩
    exact r.alike.processNotification w (h.converts r (List.mem_of_find?_eq_some hf) hname) hparams

end

/-- `f(uint32_t)`, and `def f(x)` without a schema; both return nothing. -/
def takesInteger : Registration Msgid Unit Unit where
  cpp := ⟨ascii "f", [⟨asMsgid, 0⟩], fun _ _ => .returned ⟨.nil, Object.packable_nil⟩⟩
  py := { name := ascii "f", arity := 1, function := fun _ _ => .ok (.inl .none) }
  alike := ⟨rfl, rfl, fun _ _ _ _ _ _ => iff_of_true ⟨_, rfl⟩ ⟨.none, rfl⟩⟩

/-- Another method of the same name, which throws with this text. -/
def throws (text : { s : Bytes // s.length < 2 ^ 32 }) : Registration Msgid Unit Unit where
  cpp := ⟨ascii "f", [⟨asMsgid, 0⟩], fun _ _ => .threw text⟩
  py := { name := ascii "f", arity := 1, function := fun _ _ => .error (.user text.1) }
  alike := by
    refine ⟨rfl, rfl, ?_⟩
    intro w params args pyArgs hc hp
    refine iff_of_false ?_ ?_
    · rintro ⟨result, hr⟩
      cases hr
    · rintro ⟨result, hr⟩
      cases hr

/-- `f(std::string)`, and `def f(x)` without a schema. -/
def takesText : Registration Bytes Unit Unit where
  cpp := ⟨ascii "f", [⟨asString, []⟩], fun _ _ => .returned ⟨.nil, Object.packable_nil⟩⟩
  py := { name := ascii "f", arity := 1, function := fun _ _ => .ok (.inl .none) }
  alike := ⟨rfl, rfl, fun _ _ _ _ _ _ => iff_of_true ⟨_, rfl⟩ ⟨.none, rfl⟩⟩

/-- A request for `f` with these parameters. -/
def requestF (params : List Object) : CallMessage := .request 3 (ascii "f") params

/-- How the two servers handle a message that C++ reads as `msg`. -/
def Agree (connected : Bool) (regs : List (Registration A U Unit)) (m : CallMessage)
    (msg : Message) : Prop :=
  SameHandling msgpackC ((cppServer regs).doProcessMessage connected () msg)
    ((pyServer regs).processMessage msgpackC PythonClient.strOf () (pack m.object))

end MpRpc.Python
