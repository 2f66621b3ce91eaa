import Mathlib
import MpRpc.Client
import MpRpc.Udp.Common

/-!
# Client — the client behind a UDP connector

`udp_connector` sends every message to its `endpoint_`. Its socket is opened
unconnected, so a receive takes the next datagram of any sender; `udp_common`
hands the sender to the handler, and the handler that `udp_connector::async_read`
installs drops it and calls the client's with the error and the message. So the
sender of a datagram leaves no trace in the client: a datagram of a stranger is
delivered like one of the server.
-/

namespace MpRpc.Udp

/-- A client over a `udp_connector`, and the calls of its read handler so far. -/
structure UdpClient (H : Type*) where
  client : Client H := {}
  delivered : List (ErrorInfo × MessageData) := []

namespace UdpClient

variable {E H : Type*} {parse : Bytes → Except ErrorInfo MessageData} {s t : UdpClient H}

inductive Event (E H : Type*) where
  /-- a receive completes; `order` is that of `requests_`, if it is walked -/
  | receive (received : Received E) (order : List Msgid)
  /-- anything else that happens to the client -/
  | client (e : Client.Event H)

/-- The handler that `udp_connector::async_read` gives to `udp_common`: the call it
makes of the client's handler. -/
def onReadHandler (arguments : HandlerArguments E) : ErrorInfo × MessageData :=
  (arguments.error, arguments.data)

def step (parse : Bytes → Except ErrorInfo MessageData) (s : UdpClient H) :
    Event E H → Option (UdpClient H)
  | .receive received order =>
      match (onRead parse received).map onReadHandler with
      | some call =>
          (s.client.step (.readDone call.1 call.2 order)).map fun client =>
            { client, delivered := s.delivered ++ [call] }
      -- `operation_aborted`: the handler is dropped
      | none =>
          match s.client.reads with
          | 0 => none
          | n + 1 => some { s with client := { s.client with reads := n } }
  -- what is read comes from the connector only
  | .client (.readDone ..) => none
  -- the `catch` clause of `udp_common::on_read` calls the handler again
  | .client (.readAgain order) =>
      (s.client.step (.readAgain order)).map fun client =>
        { client, delivered := s.delivered ++ s.client.caught.head?.toList.map (·, []) }
  | .client e => (s.client.step e).map fun client => { s with client }

/-- The client, from its construction. -/
def machine (E H : Type*) (parse : Bytes → Except ErrorInfo MessageData) :
    Machine (UdpClient H) (Event E H) :=
  ⟨{}, step parse⟩

/-! ## Strangers -/

/-- A datagram of another sender than the server. -/
def Event.FromStranger (endpoint : E) : Event E H → Prop
  | .receive (.datagram sender _) _ => sender ≠ endpoint
  | _ => False

instance [DecidableEq E] (endpoint : E) :
    DecidablePred (Event.FromStranger (H := H) endpoint)
  | .receive (.datagram sender _) _ => inferInstanceAs (Decidable (sender ≠ endpoint))
  | .receive .operationAborted _ => .isFalse id
  | .receive .eof _ => .isFalse id
  | .receive (.failed _) _ => .isFalse id
  | .client _ => .isFalse id

/-- The events without the datagrams of strangers. -/
def withoutStrangers [DecidableEq E] (endpoint : E) (es : List (Event E H)) : List (Event E H) :=
  es.filter fun e => ¬ e.FromStranger endpoint

/-- The run `es` to `s` ignores the strangers: without their datagrams it is a run
too, with the same calls of the read handler and the same completion of every
request. Two such runs that differ in the datagrams of strangers only agree. -/
def IgnoresStrangers [DecidableEq E] (parse : Bytes → Except ErrorInfo MessageData)
    (endpoint : E) (es : List (Event E H)) (s : UdpClient H) : Prop :=
  ∃ own, (machine E H parse).run {} (withoutStrangers endpoint es) = some own ∧
    own.delivered = s.delivered ∧ ∀ r, own.client.completion r = s.client.completion r

/-! ## Counting the calls of the read handler -/

/-- The event calls the client's read handler. -/
def Event.calls (parse : Bytes → Except ErrorInfo MessageData) : Event E H → Bool
  | .receive received _ => (onRead parse received).isSome
  | .client (.readAgain _) => true
  | .client _ => false

theorem length_delivered_step {e : Event E H} (hs : step parse s e = some t) :
    t.delivered.length = s.delivered.length + (e.calls parse).toNat := by
  cases e with
  | receive received order =>
    cases hcall : onRead parse received with
    | none =>
      simp only [step, hcall, Option.map_none] at hs
      split at hs
      · cases hs
      · cases hs
        simp [Event.calls, hcall]
    | some arguments =>
      simp only [step, hcall, Option.map_some] at hs
      obtain ⟨client, -, rfl⟩ := Option.map_eq_some_iff.mp hs
      simp [Event.calls, hcall]
  | client e =>
    cases e with
    | readDone error data order => cases hs
    | start | call | notify =>
      cases hs
      rfl
    | fetch | register | setHandler | writeDone =>
      obtain ⟨client, -, rfl⟩ := Option.map_eq_some_iff.mp hs
      rfl
    | readAgain order =>
      obtain ⟨client, hclient, rfl⟩ := Option.map_eq_some_iff.mp hs
      cases hcaught : s.client.caught with
      | nil => simp [Client.step, hcaught] at hclient
      | cons info rest => simp [Event.calls]

/-- **Every datagram is delivered**, whoever sent it. -/
theorem length_delivered_run {es : List (Event E H)}
    (hr : (machine E H parse).run s es = some t) :
    t.delivered.length = s.delivered.length + es.countP (Event.calls parse) := by
  induction es generalizing s with
  | nil =>
    cases hr
    rfl
  | cons e es ih =>
    obtain ⟨u, hu, hr⟩ := (Machine.run_cons _).mp hr
    rw [ih hr, length_delivered_step hu]
    cases he : e.calls parse
    · simp [he]
    · simp [he]
      omega

/-- The datagram of a stranger leads to a call like any other. -/
theorem calls_of_stranger {endpoint : E} {e : Event E H} (h : e.FromStranger endpoint) :
    e.calls parse = true := by
  cases e with
  | client e => exact h.elim
  | receive received order =>
    cases received with
    | operationAborted | eof | failed => exact h.elim
    | datagram sender bytes => cases hp : parse bytes <;> simp [Event.calls, onRead, hp]

/-- **A run of the client ignores strangers if and only if no datagram of one
arrives**: each is one more call of the read handler. -/
theorem ignores_iff_no_stranger [DecidableEq E] {endpoint : E} {es : List (Event E H)}
    (hr : (machine E H parse).run {} es = some s) :
    IgnoresStrangers parse endpoint es s ↔ ∀ e ∈ es, ¬ e.FromStranger endpoint := by
  constructor
  · intro h e he hstranger
    obtain ⟨own, hown, hdelivered, -⟩ := h
    have hcount := List.countP_eq_countP_filter_add es (Event.calls parse)
      fun e => decide (¬ e.FromStranger endpoint)
    have hlost : 0 < (es.filter fun e => !decide (¬ e.FromStranger endpoint)).countP
        (Event.calls parse) := by
      apply List.countP_pos_iff.mpr
      exact ⟨e, List.mem_filter.mpr ⟨he, by simpa using hstranger⟩, calls_of_stranger hstranger⟩
    have hs := length_delivered_run hr
    have ht := length_delivered_run hown
    rw [hdelivered, hs] at ht
    unfold withoutStrangers at ht
    omega
  · intro h
    have hall : withoutStrangers endpoint es = es :=
      List.filter_eq_self.mpr fun e he => decide_eq_true (h e he)
    unfold IgnoresStrangers
    rw [hall]
    exact ⟨s, hr, rfl, fun _ => rfl⟩

/-- One request, and a stranger that sends a response to it. -/
def forgedResponse : List (Event Bool Unit) :=
  [.client .start, .client (.call (ascii "balance") []), .client (.register 0),
    .receive (.datagram false (packResponse 0 (.positiveInteger 0))) [0]]

theorem ignores_iff_no_stranger_forgedResponse :
    ∃ s, (machine Bool Unit msgpackParse).run {} forgedResponse = some s ∧
      (IgnoresStrangers msgpackParse true forgedResponse s ↔
        ∀ e ∈ forgedResponse, ¬ e.FromStranger true) := by
  have hall : ∀ s, (machine Bool Unit msgpackParse).run {} forgedResponse = some s →
      (IgnoresStrangers msgpackParse true forgedResponse s ↔
        ∀ e ∈ forgedResponse, ¬ e.FromStranger true) :=
    fun s hs => ignores_iff_no_stranger hs
  exact ⟨_, rfl, hall _ rfl⟩

/-- The request is completed with what the stranger sent; without that datagram it
is pending. -/
theorem forged_response_completes :
    ∃ s own, (machine Bool Unit msgpackParse).run {} forgedResponse = some s ∧
      (machine Bool Unit msgpackParse).run {} (withoutStrangers true forgedResponse) = some own ∧
      s.client.completion 0 = some ({}, Message.response 0 .nil (.positiveInteger 0)) ∧
      own.client.completion 0 = none ∧ ¬ IgnoresStrangers msgpackParse true forgedResponse s := by
  refine ⟨_, _, rfl, rfl, rfl, rfl, ?_⟩
  intro h
  obtain ⟨own, hown, hdelivered, -⟩ := h
  cases hown
  cases hdelivered

end UdpClient

end MpRpc.Udp
