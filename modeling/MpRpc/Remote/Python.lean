import MpRpc.Python.Server
import MpRpc.Remote.Tcp

/-!
# Python — remote calls of a server in Python

The client in C++, the two directions of its connection and the server in Python. What
the client writes is a request or a notification that Python reads as it was meant, and
the client reads what `pack_response` packs.
-/

namespace MpRpc.Remote

open Msgpack Transport Python

variable {U W : Type*} {msgpack : MsgpackPackage} {str : PyException → Bytes}
  {server : Python.SimpleMethodServer U W}

/-! ## The messages, as Python has them -/

/-- A request that Python can read is read as it was packed. -/
theorem python_reads_request (hmsgpack : msgpack.Conforms) (call : PackableCall) (id : Msgid)
    {object : PyObject}
    (hread : msgpack.unpackb (packRequest id call.method call.params) = some object) :
    validateMessage object =
      .ok (.request (.int id.toNat) call.method (ofObjects call.params)) := by
  have hid : ofObject (msgidObject id) = .int id.toNat := by simp [msgidObject, ofObject, ofScalar]
  have hlt := id.toNat_lt
  rw [hmsgpack.unpackb_pack _ _ (call.packable_request id) hread]
  simp only [ofObject, ofObjects, hid]
  exact validateMessage_ok_iff.mpr (.request rfl rfl ⟨by omega, by omega⟩)

theorem python_reads_notification (hmsgpack : msgpack.Conforms) (call : PackableCall)
    {object : PyObject}
    (hread : msgpack.unpackb (packNotification call.method call.params) = some object) :
    validateMessage object = .ok (.notification call.method (ofObjects call.params)) := by
  rw [hmsgpack.unpackb_pack _ _ call.packable_notification hread]
  simp only [ofObject, ofObjects]
  exact validateMessage_ok_iff.mpr (.notification rfl)

/-- **The client reads the response of Python** under the msgid of the request. -/
theorem ofData_python_response (hmsgpack : msgpack.Conforms) {id : Msgid} {error result : PyObject}
    {data : MessageData}
    (h : msgpack.packb (Python.packResponse (.int id.toNat) error result) = some data) :
    framer.IsFrame data ∧
      Message.ofData data = .ok (Message.response id error.toObject result.toObject) := by
  obtain ⟨hpackable, rfl⟩ := hmsgpack.packb_eq _ _ h
  have hid : intObject id.toNat = msgidObject id := by simp [intObject, msgidObject]
  have hobject : (Python.packResponse (.int id.toNat) error result).toObject =
      .array [MsgType.response.toObject, msgidObject id, error.toObject, result.toObject] := by
    simp only [Python.packResponse, PyObject.toObject, toObjects, hid]
    rfl
  refine ⟨isFrame_pack hpackable, ?_⟩
  rw [hobject] at hpackable ⊢
  obtain ⟨-, -, herror, hresult⟩ : _ ∧ _ ∧ error.toObject.Packable ∧ result.toObject.Packable := by
    simpa [Object.packable_array] using hpackable
  exact ofData_packedResponse id herror hresult

/-- The error and the result with which a request of the client is answered. -/
def pythonReply (msgpack : MsgpackPackage) (str : PyException → Bytes)
    (server : Python.SimpleMethodServer U W) (w : W) (id : Msgid) (method : Bytes)
    (params : List Object) : PyObject × PyObject :=
  PyServer.reply msgpack str server w (.int id.toNat) method (ofObjects params)

/-- The call of the user's function that a request of the client makes. -/
def pythonInvocation (msgpack : MsgpackPackage) (str : PyException → Bytes)
    (server : Python.SimpleMethodServer U W) (w : W) (id : Msgid) (method : Bytes)
    (params : List Object) : Option (PyInvocation U) :=
  PyServer.invocation msgpack str server w (.int id.toNat) method (ofObjects params)

/-- What Python packs to answer a request of the client. -/
def pythonResponse (msgpack : MsgpackPackage) (str : PyException → Bytes)
    (server : Python.SimpleMethodServer U W) (w : W) (id : Msgid) (method : Bytes)
    (params : List Object) : Option MessageData :=
  let reply := pythonReply msgpack str server w id method params
  msgpack.packb (Python.packResponse (.int id.toNat) reply.1 reply.2)

/-- The response as the client has it. -/
def pythonMessage (msgpack : MsgpackPackage) (str : PyException → Bytes)
    (server : Python.SimpleMethodServer U W) (w : W) (id : Msgid) (method : Bytes)
    (params : List Object) : Message :=
  let reply := pythonReply msgpack str server w id method params
  Message.response id reply.1.toObject reply.2.toObject

/-- What the server in Python makes of a message of the client. -/
def ServedByPython (msgpack : MsgpackPackage) (str : PyException → Bytes)
    (server : Python.SimpleMethodServer U W) (data : MessageData)
    (answer : Answer (PyInvocation U)) : Prop :=
  Sendable data ∧ PyServer.Serves msgpack str server data answer

/-- What is answered is a request of the client. -/
theorem ServedByPython.response (hmsgpack : msgpack.Conforms) {data response : MessageData}
    {answer : Answer (PyInvocation U)} (h : ServedByPython msgpack str server data answer)
    (hresponse : answer.response = some response) :
    ∃ (call : PackableCall) (id : Msgid) (w : W), data = packRequest id call.method call.params ∧
      pythonResponse msgpack str server w id call.method call.params = some response ∧
      answer.invocation = pythonInvocation msgpack str server w id call.method call.params := by
  obtain ⟨hsendable, hserves⟩ := h
  have hmessage : answer.message = data := by
    obtain ⟨w, rfl⟩ := hserves
    rfl
  have hanswered := hserves.answered
  obtain ⟨object, msgid, method, params, hobject, hvalid⟩ := hanswered.other response hresponse
  rw [hmessage] at hobject
  rcases hsendable with ⟨call, id, rfl⟩ | ⟨call, rfl⟩
  · obtain ⟨w, hw, hinvocation⟩ := hanswered.request object _ _ _ (hmessage ▸ hobject)
      (python_reads_request hmsgpack call id hobject)
    exact ⟨call, id, w, rfl, hw.symm.trans hresponse, hinvocation⟩
  · -- a notification has no response
    rw [python_reads_notification hmsgpack call hobject] at hvalid
    cases hvalid

/-- A request is answered if Python can read it and can pack the answer. -/
theorem ServedByPython.response_eq (hmsgpack : msgpack.Conforms) {call : PackableCall} {id : Msgid}
    {answer : Answer (PyInvocation U)}
    (h : PyServer.Serves msgpack str server answer.message answer)
    (hmessage : answer.message = packRequest id call.method call.params) :
    ∃ w, answer.response =
      (msgpack.unpackb (packRequest id call.method call.params)).bind fun _ =>
        pythonResponse msgpack str server w id call.method call.params := by
  have hanswered := h.answered
  rw [← hmessage]
  cases hobject : msgpack.unpackb answer.message with
  | none =>
    obtain ⟨w, -⟩ := h
    refine ⟨w, ?_⟩
    rw [Option.bind_none]
    by_contra hsome
    obtain ⟨response, hresponse⟩ := Option.ne_none_iff_exists'.mp hsome
    obtain ⟨object, msgid, method, params, hread, -⟩ := hanswered.other response hresponse
    rw [hobject] at hread
    cases hread
  | some object =>
    obtain ⟨w, hresponse, -⟩ := hanswered.request object _ _ _ hobject
      (python_reads_request hmsgpack call id (hmessage ▸ hobject))
    exact ⟨w, hresponse⟩

theorem conforms_python (hmsgpack : msgpack.Conforms) (str : PyException → Bytes)
    (server : Python.SimpleMethodServer U W) :
    Conforms Sendable (ServedByPython msgpack str server) framer.IsFrame where
  request call id := .inl ⟨call, id, rfl⟩
  notification call := .inr ⟨call, rfl⟩
  message data answer h := by
    obtain ⟨-, w, rfl⟩ := h
    rfl
  response data answer response h hresponse := by
    obtain ⟨call, id, w, rfl, hpacked, -⟩ := h.response hmsgpack hresponse
    obtain ⟨hframe, hread⟩ := ofData_python_response hmsgpack hpacked
    exact ⟨hframe, _, _, ofData_packRequest id call.methodSized call.paramsPackable, rfl,
      ⟨hread, rfl⟩, rfl⟩

/-- Request `r` got what one execution in Python of the method it named gave on its
parameters, or the error that there is no such method. -/
def ExecutedByPython {H σ τ : Type*} (msgpack : MsgpackPackage) (str : PyException → Bytes)
    (server : Python.SimpleMethodServer U W) (s : Remote H (PyInvocation U) σ τ) (r : Nat)
    (msg : Message) : Prop :=
  ∃ (call : PackableCall) (w : W) (answer : Answer (PyInvocation U)), answer ∈ s.served ∧
    s.client.asked r = some (call.method, call.params) ∧ s.client.idOf r = some msg.msgid ∧
    answer.message = packRequest msg.msgid call.method call.params ∧
    answer.invocation = pythonInvocation msgpack str server w msg.msgid call.method call.params ∧
    msg = pythonMessage msgpack str server w msg.msgid call.method call.params

theorem OwnAnswer.executedByPython {H σ τ : Type*} (hmsgpack : msgpack.Conforms)
    {s : Remote H (PyInvocation U) σ τ} {r : Nat}
    {msg : Message} {answer : Answer (PyInvocation U)} (h : s.OwnAnswer r msg answer)
    (hserves : ServedByPython msgpack str server answer.message answer) :
    ExecutedByPython msgpack str server s r msg := by
  obtain ⟨call, hasked, hid, hmessage⟩ := h.own
  obtain ⟨data, hresponse, hdata⟩ := h.response
  obtain ⟨call', id, w, hmessage', hpacked, hinvocation⟩ := hserves.response hmsgpack hresponse
  -- the request that was answered is that of `r`
  have hrequest := ofData_packRequest msg.msgid call.methodSized call.paramsPackable
  rw [← hmessage, hmessage', ofData_packRequest id call'.methodSized call'.paramsPackable]
    at hrequest
  have hsame : id = msg.msgid ∧ call'.method = call.method ∧ call'.params = call.params := by
    have heq := Except.ok.inj hrequest
    have hparams : some (Object.array call'.params) = some (Object.array call.params) :=
      congrArg Message.params heq
    exact ⟨congrArg Message.msgid heq, congrArg Message.method heq, by simpa using hparams⟩
  obtain ⟨rfl, hmethod, hparams⟩ := hsame
  rw [hmethod, hparams] at hpacked hinvocation
  exact ⟨call, w, answer, h.served, hasked, hid, hmessage, hinvocation,
    Except.ok.inj (hdata.1.symm.trans (ofData_python_response hmsgpack hpacked).2)⟩

/-- The client, its connection and the server in Python. -/
def pythonMachine (H : Type*) (msgpack : MsgpackPackage) (str : PyException → Bytes)
    (server : Python.SimpleMethodServer U W) (k : Nat) (K : StreamCodec) (minBufSize : Nat) :=
  machine H (tcpFront K minBufSize (PyServer.relay msgpack str server k))
    (StreamLink.relay K minBufSize)

/-- The method `fail` is asked for and raises. -/
def failCall : PackableCall where
  method := ascii "fail"
  params := []
  methodSized := by decide
  paramsPackable := by decide

def failOnce : List (Event (StreamLink.Event (codecOf .zstd) ⊕ PyServer.Event Unit)
    (StreamLink.Event (codecOf .zstd)) Unit) :=
  [.front (.inr .accept), .user (.asyncRequest failCall), .user (.register 0)] ++
    (carry (packRequest 0 failCall.method failCall.params)).map (fun e => .front (.inl e)) ++
    [.front (.inr (.runTask 0)), .front (.inr (.execute ())), .front (.inr (.callback 0))] ++
    (carry PythonClient.emptyRaiseData).map fun e => .back e [0]

abbrev failMachine (type : Config.CompressionType) := pythonMachine Unit msgpackC
  PythonClient.strOf (.ofMethods [PythonClient.emptyRaise]) 0 (codecOf type) 64

end MpRpc.Remote
