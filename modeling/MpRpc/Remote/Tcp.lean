import MpRpc.Remote.Correlation
import MpRpc.Server.Session
import MpRpc.System.Correlation
import MpRpc.Transport.StreamLink

/-!
# Tcp — remote calls over TCP

A client, the two directions of its connection, and the server with all its sessions, of
which `k` is that of the client. The parts are the models of the client, of
`stream_socket_helper` with the compressor and the parser that the configuration names,
of `server_base` and of `simple_method_server`; each of them moves by itself.
-/

namespace MpRpc.Remote

open Msgpack Transport

variable {A W : Type*}

/-- The read handler of a session is passed on the messages; that a read fails is a move
of the server. -/
def onlyMessages : ReadCall → Option MessageData
  | .message data => some data
  | .error _ => none

/-- A connection, and a server behind it. -/
def tcpFront {ρ ε I : Type*} (K : StreamCodec) (minBufSize : Nat)
    (server : Relay ρ ε MessageData (Answer I)) :
    Relay (StreamLink K × ρ) (StreamLink.Event K ⊕ ε) MessageData (Answer I) :=
  Relay.comp (StreamLink.relay K minBufSize) server onlyMessages

/-- **The connection brings every message to the server at most once**, as it is. -/
def tcpLedger {ρ ε I : Type*} (K : StreamCodec) (minBufSize : Nat)
    {server : Relay ρ ε MessageData (Answer I)} {Serves : MessageData → Answer I → Prop}
    (L : server.Ledger (fun _ => True) Relay.AnyMove Serves fun _ => False)
    {Ok : MessageData → Prop} (hok : ∀ data, Ok data → framer.IsFrame data) :
    (tcpFront K minBufSize server).Ledger Ok Relay.AnyMove
      (fun data answer => Ok data ∧ Serves data answer) fun _ => False :=
  (Relay.Ledger.comp True (StreamLink.ledger K minBufSize) L (by rintro call ⟨info, rfl, -⟩; rfl)
    (fun hno => absurd trivial hno) (fun _ _ _ _ => trivial)).weaken hok
    (fun s i _ => Relay.fairBoth_anyMove s i) (by
      rintro data answer hdata ⟨c, ⟨call, rfl, hc⟩, hserves⟩
      cases hc
      exact ⟨hdata, hserves⟩)

theorem isFrame_respond (id : Msgid) (inv : Option (Invocation A)) :
    framer.IsFrame (MethodExecutor.respond id inv) := by
  have hpacked : ∀ {error result : Object}, error.Packable → result.Packable →
      framer.IsFrame
        (pack (.array [MsgType.response.toObject, msgidObject id, error, result])) := by
    intro error result herror hresult
    refine isFrame_pack ?_
    simpa [Object.packable_array] using
      ⟨packable_toObject .response, packable_msgidObject id, herror, hresult⟩
  cases inv with
  | none => exact hpacked (packable_str (by decide)) Object.packable_nil
  | some inv =>
    obtain ⟨method, args, outcome⟩ := inv
    cases outcome with
    | returned result => exact hpacked Object.packable_nil result.2
    | threw what => exact hpacked (packable_str what.2) Object.packable_nil

/-- What is answered is a request, by its method. -/
theorem response_of_serves {server : SimpleMethodServer A W} {k : Nat} {data response : MessageData}
    {answer : Answer (Invocation A)} (h : Server.Serves server k data answer)
    (hresponse : answer.response = some response) :
    ∃ msg m w, Message.ofData data = .ok msg ∧ msg.type = some .request ∧
      server.methods.lookup msg.method = some m ∧ answer.invocation = m.invoke w msg ∧
      response = MethodExecutor.respond msg.msgid (m.invoke w msg) := by
  obtain ⟨s, origin, msg, w, hmsg, -, hinvocation, hresponses⟩ := h
  rw [hresponse] at hresponses
  obtain ⟨x, hx, hdata⟩ := Option.map_eq_some_iff.mp hresponses.symm
  obtain ⟨htype, m, hm, hcall, -, rfl⟩ := Server.of_mem_responsesOf (List.mem_of_mem_head? hx)
  exact ⟨msg, m, w, hmsg, htype, hm, hinvocation.trans hcall, hdata.symm⟩

theorem isResponse_respond (id : Msgid) (inv : Option (Invocation A)) :
    Client.IsResponse (MethodExecutor.respond id inv) (Message.response id
      (MethodExecutor.answer inv).1 (MethodExecutor.answer inv).2) :=
  ⟨MethodExecutor.ofData_respond id inv, rfl⟩

/-- A message that the client may write. -/
def Sendable (data : MessageData) : Prop :=
  (∃ (call : PackableCall) (id : Msgid), data = packRequest id call.method call.params) ∨
    ∃ call : PackableCall, data = packNotification call.method call.params

theorem Sendable.isFrame {data : MessageData} (h : Sendable data) : framer.IsFrame data := by
  rcases h with ⟨call, id, rfl⟩ | ⟨call, rfl⟩
  · exact isFrame_pack (call.packable_request id)
  · exact isFrame_pack call.packable_notification

theorem conforms (server : SimpleMethodServer A W) (k : Nat) :
    Conforms Sendable (fun data answer => Sendable data ∧ Server.Serves server k data answer)
      framer.IsFrame where
  request call id := .inl ⟨call, id, rfl⟩
  notification call := .inr ⟨call, rfl⟩
  message data answer h := by
    obtain ⟨-, s, origin, msg, w, -, hmessage, -⟩ := h
    exact hmessage
  response data answer response h hresponse := by
    obtain ⟨msg, m, w, hmsg, htype, -, -, rfl⟩ := response_of_serves h.2 hresponse
    exact ⟨isFrame_respond _ _, msg, _, hmsg, htype, isResponse_respond _ _, rfl⟩

/-- Request `r` got the result of one execution of the method it named, on its parameters:
the server has processed the message of `r` by this execution, and `msg` says what came
of it. -/
def ExecutedBy {H σ τ : Type*} (server : SimpleMethodServer A W)
    (s : Remote H (Invocation A) σ τ) (r : Nat) (msg : Message) : Prop :=
  ∃ (call : PackableCall) (m : MethodExecutor A W) (w : W),
    s.client.asked r = some (call.method, call.params) ∧ s.client.idOf r = some msg.msgid ∧
    server.methods.lookup call.method = some m ∧
    { message := packRequest msg.msgid call.method call.params
      invocation := m.invoke w (Message.request msg.msgid call.method call.params)
      response := some (MethodExecutor.respond msg.msgid
        (m.invoke w (Message.request msg.msgid call.method call.params))) } ∈ s.served ∧
    msg = Message.response msg.msgid
      (MethodExecutor.answer (m.invoke w (Message.request msg.msgid call.method call.params))).1
      (MethodExecutor.answer (m.invoke w (Message.request msg.msgid call.method call.params))).2

/-- An answer of the server to the own message is that of an execution. -/
theorem OwnAnswer.executedBy {H σ τ : Type*} {server : SimpleMethodServer A W} {k : Nat}
    {s : Remote H (Invocation A) σ τ} {r : Nat} {msg : Message} {answer : Answer (Invocation A)}
    (h : s.OwnAnswer r msg answer) (hserves : Server.Serves server k answer.message answer) :
    ExecutedBy server s r msg := by
  obtain ⟨call, hasked, hid, hmessage⟩ := h.own
  obtain ⟨data, hresponse, hdata⟩ := h.response
  obtain ⟨request, m, w, hrequest, -, hm, hinvocation, rfl⟩ := response_of_serves hserves hresponse
  rw [hmessage, ofData_packRequest _ call.methodSized call.paramsPackable] at hrequest
  cases hrequest
  refine ⟨call, m, w, hasked, hid, hm, ?_, ?_⟩
  · have hanswer := h.served
    obtain ⟨message, invocation, response⟩ := answer
    cases hmessage
    cases hinvocation
    cases hresponse
    exact hanswer
  · exact Except.ok.inj (hdata.1.symm.trans (MethodExecutor.ofData_respond _ _))

theorem Correlated.executedBy {H σ τ : Type*} {server : SimpleMethodServer A W} {k : Nat}
    {s : Remote H (Invocation A) σ τ} (h : s.Correlated)
    (hserves : ∀ answer ∈ s.served, Server.Serves server k answer.message answer) (r : Nat)
    (error : ErrorInfo) (msg : Message) (hcompletion : s.client.completion r = some (error, msg))
    (herror : error.hasError = false) : ExecutedBy server s r msg := by
  obtain ⟨answer, hanswer⟩ := h.own r error msg hcompletion herror
  exact hanswer.executedBy (hserves answer hanswer.served)

/-- The client, its connection and the server. -/
def tcpMachine (H : Type*) (server : SimpleMethodServer A W) (k : Nat) (K : StreamCodec)
    (minBufSize : Nat) :=
  machine H (tcpFront K minBufSize (Server.relay server k)) (StreamLink.relay K minBufSize)

/-- Over a connection with any codec, requests and responses belong together, and what a
request is completed with is what the server executed for it. -/
theorem executedBy_of_tcp_run {H : Type*} {server : SimpleMethodServer A W} {k : Nat}
    {K : StreamCodec} {minBufSize : Nat}
    {es : List (Event (StreamLink.Event K ⊕ Server.Event W) (StreamLink.Event K) H)}
    {s : Remote H (Invocation A) (StreamLink K × Server A) (StreamLink K)}
    (hdraws : draws es ≤ 2 ^ 32)
    (hs : (tcpMachine H server k K minBufSize).run (tcpMachine H server k K minBufSize).init es =
      some s) :
    s.Correlated ∧ ∀ r error msg, s.client.completion r = some (error, msg) →
      error.hasError = false → ExecutedBy server s r msg := by
  obtain ⟨hcorrelated, hserves⟩ := correlated_of_run
    (tcpLedger _ minBufSize (Server.ledger server k) fun _ h => h.isFrame)
    (StreamLink.ledger _ minBufSize) (conforms server k) hdraws hs
  exact ⟨hcorrelated, hcorrelated.executedBy fun answer hanswer => (hserves answer hanswer).2⟩

/-- The call `refuse(false)`, which returns. -/
def refuseFalse : PackableCall where
  method := ascii "refuse"
  params := [.scalar (.boolean false)]
  methodSized := (System.refuseCall false).methodSized
  paramsPackable := (System.refuseCall false).paramsPackable

abbrev codecOf (type : Config.CompressionType) : StreamCodec :=
  streamCodec StoredFrames.library (fun _ => 0) type

/-- Nothing fails, and nothing more is available. -/
def calm : SocketReader.Surroundings (codecOf .zstd).Choice :=
  ⟨none, (some fun _ => 0, 8), some 0, (some fun _ => 0, 8)⟩

/-- A message is written and read in one piece. -/
def carry (data : MessageData) : List (StreamLink.Event (codecOf .zstd)) :=
  [.write (.runTask 0), .write (.transfer 0 64), .read (.asyncRead calm),
    .read (.readBytes 1 (StoredFrames.encode data) (some 0) calm)]

/-- One request is sent, executed and answered. -/
def refuseOnce : List (Event (StreamLink.Event (codecOf .zstd) ⊕ Server.Event Unit)
    (StreamLink.Event (codecOf .zstd)) Unit) :=
  [.front (.inr .accept), .user (.asyncRequest refuseFalse), .user (.register 0)] ++
    (carry (packRequest 0 refuseFalse.method refuseFalse.params)).map (fun e => .front (.inl e)) ++
    [.front (.inr (.runTask 0 ()))] ++
    (carry (packResponse 0 .nil)).map fun e => .back e [0]

end MpRpc.Remote
