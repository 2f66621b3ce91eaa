import MpRpc.Remote.Completion
import MpRpc.Remote.Python
import MpRpc.Transport.StreamTally

/-!
# Answered — who gets an answer over TCP

A connection on which nothing fails, to a server that keeps the session of the client: when
nothing is under way any more, the requests that are completed are those that the server
answers. The server in C++ writes no response for a method that it does not have, so that a
request to such a method waits for ever; the server in Python answers it with an error, and
leaves only those requests waiting whose response it cannot pack.
-/

namespace MpRpc.Remote

open Msgpack Transport Python

variable {A U W : Type*}

theorem Sendable.legible {data : MessageData} (h : Sendable data) :
    ∃ msg, Message.ofData data = .ok msg := by
  rcases h with ⟨call, id, rfl⟩ | ⟨call, rfl⟩
  · exact ⟨_, ofData_packRequest id call.methodSized call.paramsPackable⟩
  · exact (Message.accepted_iff call.packable_notification).mpr
      ⟨.notification call.method call.params, .notification (.inl rfl) call.params⟩

/-- **The connection brings every message to the server.** -/
def tcpTally {ρ ε I : Type*} {K : StreamCodec} (hK : K.Thorough) (minBufSize : Nat)
    {server : Relay ρ ε MessageData (Answer I)} {Ok : MessageData → Prop}
    {Fair : ρ → ε → Prop} {Answers : MessageData → Answer I → Prop} {Settled : ρ → Prop}
    (T : server.Tally Ok Fair Answers Settled) (hok : ∀ data, Sendable data → Ok data) :
    (tcpFront K minBufSize server).Tally Sendable
      (Relay.FairBoth (StreamLink.Undisturbed minBufSize) Fair)
      (fun data answer => Sendable data ∧ Answers data answer)
      (fun s => s.1.Settled ∧ Settled s.2) :=
  (Relay.Tally.comp ((StreamLink.tally hK minBufSize).weaken (fun _ h => h.isFrame)
      fun _ _ _ h => h) T (by rintro data call - rfl; simp [onlyMessages])
    (by
      rintro data c hdata ⟨call, rfl, hc⟩
      cases hc
      exact hok data hdata)).weaken (fun _ h => h) (by
      rintro data answer hdata ⟨c, ⟨call, rfl, hc⟩, hanswers⟩
      cases hc
      exact ⟨hdata, hanswers⟩)

section Tcp

variable {H I ρ ε : Type*} {K : StreamCodec}

/-- Nothing fails: no write and no read, and nothing at the server that `Fair` forbids. -/
def tcpUndisturbed (minBufSize : Nat) (Fair : ρ → ε → Prop)
    (s : Remote H I (StreamLink K × ρ) (StreamLink K)) :
    Event (StreamLink.Event K ⊕ ε) (StreamLink.Event K) H → Prop :=
  s.Undisturbed (Relay.FairBoth (StreamLink.Undisturbed minBufSize) Fair)
    (StreamLink.Undisturbed minBufSize)

instance (minBufSize : Nat) (Fair : ρ → ε → Prop) [∀ s, DecidablePred (Fair s)]
    (s : Remote H I (StreamLink K × ρ) (StreamLink K)) :
    DecidablePred (tcpUndisturbed minBufSize Fair s) :=
  inferInstanceAs (DecidablePred (s.Undisturbed _ _))

/-- Nothing is under way: both directions of the connection have handed over what they got,
and no message waits at the server. -/
structure TcpSettled (waiting : ρ → Multiset MessageData)
    (s : Remote H I (StreamLink K × ρ) (StreamLink K)) : Prop where
  outward : s.front.1.Settled
  server : waiting s.front.2 = 0
  homeward : s.back.Settled

end Tcp

/-- A registered request to a method of the server is completed at the end. -/
theorem Complete.of_method {H σ τ : Type*} {server : SimpleMethodServer A W} {k : Nat}
    {s : Remote H (Invocation A) σ τ}
    (h : s.Complete fun data answer => Sendable data ∧ Server.Answers server k data answer)
    {r : Nat} {id : Msgid} (hid : s.client.idOf r = some id) :
    ∃ call : PackableCall, s.client.asked r = some (call.method, call.params) ∧
      (call.method ∈ server.methods → ∃ msg, s.client.completion r = some ({}, msg)) := by
  obtain ⟨call, answer, -, hcall, hmessage, ⟨-, hanswer⟩, hcompleted⟩ := h.completed r id hid
  refine ⟨call, hcall, ?_⟩
  intro hmethod
  have hread := ofData_packRequest id call.methodSized call.paramsPackable
  obtain ⟨response, hresponse⟩ := Option.ne_none_iff_exists'.mp
    (hanswer.2 _ (hmessage ▸ hread) rfl hmethod)
  obtain ⟨msg, -, hcompletion⟩ := hcompleted response hresponse
  exact ⟨msg, hcompletion⟩

/-- Over a connection that delivers everything, nothing is left to do at the end. -/
theorem complete_of_tcp_run {H : Type*} {server : SimpleMethodServer A W} {k : Nat}
    {K : StreamCodec} (hK : K.Thorough) {minBufSize : Nat}
    {es : List (Event (StreamLink.Event K ⊕ Server.Event W) (StreamLink.Event K) H)}
    {s : Remote H (Invocation A) (StreamLink K × Server A) (StreamLink K)}
    (hdraws : draws es ≤ 2 ^ 32)
    (hfair : (tcpMachine H server k K minBufSize).EachStep
      (tcpUndisturbed minBufSize (Server.Undisturbed k))
      (tcpMachine H server k K minBufSize).init es)
    (hs : (tcpMachine H server k K minBufSize).run (tcpMachine H server k K minBufSize).init es =
      some s) (hsettled : TcpSettled (Server.backlog k) s) :
    s.Complete fun data answer => Sendable data ∧ Server.Answers server k data answer :=
  complete_of_run (tcpTally hK minBufSize (Server.tally server k) fun _ h => h.legible)
    (StreamLink.tally hK minBufSize)
    (tcpLedger _ minBufSize (Server.ledger server k) fun _ h => h.isFrame)
    (StreamLink.ledger _ minBufSize) (conforms server k)
    (fun _ _ h => ⟨h.1, h.2.1⟩) hdraws hfair hs ⟨hsettled.outward, hsettled.server⟩
    hsettled.homeward

/-- The call of a method that the server does not have. -/
def unknownCall : PackableCall where
  method := ascii "unknown"
  params := []
  methodSized := by decide
  paramsPackable := failCall.paramsPackable

/-- Nothing fails, and nothing more is available. -/
def quiet : SocketReader.Surroundings (codecOf .none).Choice := ⟨none, none, some 0, none⟩

/-- Message `n` is written and read in one piece, and the write ends. -/
def carryThrough (n : Nat) (data : MessageData) : List (StreamLink.Event (codecOf .none)) :=
  [.write (.runTask 0), .write (.transfer 0 64), .read (.asyncRead quiet),
    .read (.readBytes n data (some 0) quiet),
    .write (.writeDone 0 .success)]

/-- The next read begins. -/
def readOn : StreamLink.Event (codecOf .none) := .read (.asyncRead quiet)

/-- Two requests are sent and processed, and the one that has a response is answered; then
both ends wait for more. -/
def refuseAndUnknown : List (Event (StreamLink.Event (codecOf .none) ⊕ Server.Event Unit)
    (StreamLink.Event (codecOf .none)) Unit) :=
  [.front (.inr .accept), .user (.asyncRequest refuseFalse), .user (.register 0),
    .user (.asyncRequest unknownCall), .user (.register 1)] ++
    (carryThrough 1 (packRequest 0 refuseFalse.method refuseFalse.params) ++
      carryThrough 2 (packRequest 1 unknownCall.method unknownCall.params) ++
      [readOn]).map (fun e => .front (.inl e)) ++
    [.front (.inr (.runTask 0 ())), .front (.inr (.runTask 0 ()))] ++
    (carryThrough 1 (packResponse 0 .nil) ++ [readOn]).map fun e => .back e [1, 0]

/-- The two requests are registered with these methods and numbers of parameters, and
nothing is under way on the connection. -/
def endsWith {I ρ : Type*} (first second : Bytes × Nat)
    (s : Remote Unit I (StreamLink (codecOf .none) × ρ) (StreamLink (codecOf .none))) : Bool :=
  s.client.idOf 0 = some 0 ∧ s.client.idOf 1 = some 1 ∧
    (s.client.asked 0).map (fun q => (q.1, q.2.length)) = some first ∧
    (s.client.asked 1).map (fun q => (q.1, q.2.length)) = some second ∧
    s.front.1.Settled ∧ s.back.Settled

/-- A request whose answer has no response is not completed. -/
theorem Correlated.completion_eq_none {H I σ τ : Type*} {s : Remote H I σ τ} (h : s.Correlated)
    {Answers : MessageData → Answer I → Prop} (hcomplete : s.Complete Answers) {r : Nat}
    {id : Msgid} {call : PackableCall} {answer : Answer I} (hid : s.client.idOf r = some id)
    (hserved : answer ∈ s.served)
    (hmessage : answer.message = packRequest id call.method call.params)
    (hnone : answer.response = none) : s.client.completion r = none := by
  cases hv : s.client.completion r with
  | none => rfl
  | some v =>
    -- it would be completed by a response, and its only answer has none
    obtain ⟨answer', hanswer'⟩ := h.own r v.1 v.2 hv (hcomplete.succeeded r v.1 v.2 hv)
    obtain ⟨call', -, hid', hmessage'⟩ := hanswer'.own
    obtain ⟨data, hdata, -⟩ := hanswer'.response
    have hsame : v.2.msgid = id := Option.some.inj (hid'.symm.trans hid)
    have hother : requestId answer'.message = some id := by
      rw [hmessage', requestId_packRequest, hsame]
    have hone : answer' = answer := by
      refine h.answer_unique hanswer'.served hserved hother ?_
      rw [hmessage, requestId_packRequest]
    rw [hone, hnone] at hdata
    cases hdata

/-- The response to a request for a method that the server does not have. -/
def notFoundData (id : Msgid) (method : Bytes) : MessageData :=
  (msgpackC.packb (Python.packResponse (.int id.toNat)
    (.str (Python.SimpleMethodServer.notFoundText method)) .none)).getD []

/-- Two requests are sent, processed and answered; then both ends wait for more. -/
def failAndUnknown : List (Event (StreamLink.Event (codecOf .none) ⊕ PyServer.Event Unit)
    (StreamLink.Event (codecOf .none)) Unit) :=
  [.front (.inr .accept), .user (.asyncRequest failCall), .user (.register 0),
    .user (.asyncRequest unknownCall), .user (.register 1)] ++
    (carryThrough 1 (packRequest 0 failCall.method failCall.params) ++
      carryThrough 2 (packRequest 1 unknownCall.method unknownCall.params) ++
      [readOn]).map (fun e => .front (.inl e)) ++
    [.front (.inr (.runTask 0)), .front (.inr (.runTask 0)), .front (.inr (.execute ())),
      .front (.inr (.execute ())), .front (.inr (.callback 0)), .front (.inr (.callback 0))] ++
    (carryThrough 1 PythonClient.emptyRaiseData ++
      carryThrough 2 (notFoundData 1 unknownCall.method) ++ [readOn]).map fun e => .back e [1, 0]

end MpRpc.Remote
