import MpRpc.Msgpack.Parse
import MpRpc.Transport.SocketReader
import MpRpc.Udp.Common

/-!
# Reader — the reading half of a UDP socket

`udp_common::async_read` with any `parser` and any number of reads outstanding. As
in `stream_socket_helper`, the handler is called inside the `try` block whose `catch`
clause calls it too.
-/

namespace MpRpc.Udp

/-- `parser`: `parse` may throw `mprpc::exception`, or another exception (`none`); `χ` is
what it depends on besides the parser and the bytes, such as the allocator. -/
structure Parser (π χ : Type*) where
  parse : π → Bytes → χ → Option (Except ErrorInfo MessageData) × π

/-- A parser that keeps no state, and whose exceptions are `mprpc::exception`. -/
def Parser.ofParse (parse : Bytes → Except ErrorInfo MessageData) : Parser Unit Unit :=
  ⟨fun _ bytes _ => (some (parse bytes), ())⟩

/-- The reading half of `udp_common`: the reads whose `async_receive_from` is
outstanding, the number of `async_read` calls so far, and the calls of their handlers. -/
structure Reader (π E : Type*) where
  parser : π
  waiting : List Nat := []
  reads : Nat := 0
  calls : List (Nat × HandlerArguments E) := []

namespace Reader

variable {π χ E : Type*} {P : Parser π χ}

inductive Event (χ E : Type*) where
  /-- `async_read`: the posted `do_read` runs -/
  | asyncRead
  /-- the `async_receive_from` of a read completes; the handler throws `throws` when it is
  handed a message -/
  | completed (read : Nat) (received : Received E) (throws : Option ErrorInfo) (choice : χ)

/-- The handler of `read` is called. -/
def call (s : Reader π E) (read : Nat) (arguments : HandlerArguments E) : Reader π E :=
  { s with calls := s.calls ++ [(read, arguments)] }

/-- `handler(error_info(), sender_, msg)` inside the `try` block. -/
def deliver (s : Reader π E) (read : Nat) (sender : E) (data : MessageData)
    (throws : Option ErrorInfo) : Reader π E :=
  match throws with
  | none => s.call read { endpoint := some sender, data }
  | some info => (s.call read { endpoint := some sender, data }).call read { error := info }

/-- `on_read` -/
def onRead (P : Parser π χ) (s : Reader π E) (read : Nat) (throws : Option ErrorInfo)
    (choice : χ) : Received E → Reader π E
  | .operationAborted => s
  | .eof => s.call read { error := .of .eof "connection closed" }
  | .failed message => s.call read { error := .of .failedToRead message }
  | .datagram sender bytes =>
      match P.parse s.parser bytes choice with
      | (none, parser) => { s with parser := parser }
      | (some (.error info), parser) => ({ s with parser := parser }).call read { error := info }
      | (some (.ok data), parser) =>
          ({ s with parser := parser }).deliver read sender data throws

def step (P : Parser π χ) (s : Reader π E) : Event χ E → Option (Reader π E)
  | .asyncRead => some { s with waiting := s.waiting ++ [s.reads + 1], reads := s.reads + 1 }
  | .completed read received throws choice =>
      if read ∈ s.waiting then
        some (({ s with waiting := s.waiting.filter (· ≠ read) }).onRead P read throws choice
          received)
      else none

def machine (P : Parser π χ) (E : Type*) (parser : π) : Machine (Reader π E) (Event χ E) where
  init := { parser := parser }
  step := step P

/-- A datagram comes that the parser makes a message of. -/
def HandsMessage (P : Parser π χ) (s : Reader π E) : Event χ E → Prop
  | .completed _ (.datagram _ bytes) _ choice =>
      ∃ data, (P.parse s.parser bytes choice).1 = some (.ok data)
  | _ => False

/-- What the handler throws when it is handed a message in this event. -/
def Event.throws : Event χ E → Option ErrorInfo
  | .asyncRead => none
  | .completed _ _ throws _ => throws

/-! ## The first call is that of `onRead` -/

/-- **A handler that does not throw is called as `onRead` says.** -/
theorem calls_onRead (parse : Bytes → Except ErrorInfo MessageData) (s : Reader Unit E)
    (read : Nat) (received : Received E) :
    (s.onRead (.ofParse parse) read none () received).calls =
      s.calls ++ ((Udp.onRead parse received).map (read, ·)).toList := by
  cases received with
  | operationAborted => simp [onRead, Udp.onRead]
  | eof => rfl
  | failed message => rfl
  | datagram sender bytes =>
    simp only [onRead, Udp.onRead, Parser.ofParse]
    cases parse bytes <;> rfl

/-! ## The account of the handlers -/

/-- Reads, those outstanding, and the calls of their handlers. -/
def account (s : Reader π E) : OneShot where
  issued := s.reads
  pending := { read | read ∈ s.waiting }
  called := s.calls.map Prod.fst

variable {s : Reader π E} {a : OneShot} {read : Nat}

theorem account_call {times : Nat} (h : s.account = a.settle read times)
    (arguments : HandlerArguments E) :
    (s.call read arguments).account = a.settle read (times + 1) := by
  rw [OneShot.settle_succ, ← h]
  simp [account, call]

theorem account_deliver (h : s.account = a.settle read 0) (sender : E) (data : MessageData)
    (throws : Option ErrorInfo) :
    ∃ times, (s.deliver read sender data throws).account = a.settle read times ∧
      (times ≤ 1 ↔ throws = none) := by
  cases throws with
  | none => exact ⟨1, account_call h _, by simp⟩
  | some info => exact ⟨2, account_call (account_call h _) _, by simp⟩

/-- **What `on_read` does to the account.** -/
theorem account_onRead (h : s.account = a.settle read 0) (received : Received E)
    (throws : Option ErrorInfo) (choice : χ) :
    ∃ times, (s.onRead P read throws choice received).account = a.settle read times ∧
      (times ≤ 1 ↔ (HandsMessage P s (.completed read received throws choice) →
        throws = none)) := by
  cases received with
  | operationAborted => exact ⟨0, h, by simp [HandsMessage]⟩
  | eof => exact ⟨1, account_call h _, by simp [HandsMessage]⟩
  | failed message => exact ⟨1, account_call h _, by simp [HandsMessage]⟩
  | datagram sender bytes =>
    simp only [onRead, HandsMessage]
    obtain ⟨result, parser⟩ := P.parse s.parser bytes choice
    have hparser : ({ s with parser := parser } : Reader π E).account = a.settle read 0 := h
    cases result with
    | none => exact ⟨0, hparser, by simp⟩
    | some result =>
      cases result with
      | error info => exact ⟨1, account_call hparser _, by simp⟩
      | ok data =>
        obtain ⟨times, ht, htimes⟩ := account_deliver hparser sender data throws
        exact ⟨times, ht, by simp [htimes]⟩

/-- **One event calls a handler twice only by handing it a message on which it throws.** -/
theorem moves_step {t : Reader π E} {e : Event χ E} (he : step P s e = some t) :
    ∃ times, s.account.Moves times t.account ∧
      (times ≤ 1 ↔ (HandsMessage P s e → e.throws = none)) := by
  cases e with
  | asyncRead =>
    simp only [step, Option.some.injEq] at he
    subst he
    refine ⟨0, .issue ?_, by simp [HandsMessage]⟩
    have hissue : ({ s with waiting := s.waiting ++ [s.reads + 1], reads := s.reads + 1 } :
        Reader π E).account = s.account.issue := by
      simp only [account, OneShot.issue, OneShot.mk.injEq, true_and, and_true]
      ext n
      simp [or_comm]
    rw [hissue]
    exact .stay _
  | completed read received throws choice =>
    simp only [step, Option.ite_none_right_eq_some, Option.some.injEq] at he
    obtain ⟨hread, rfl⟩ := he
    have hstart : ({ s with waiting := s.waiting.filter (· ≠ read) } : Reader π E).account =
        s.account.settle read 0 := by
      simp only [account, OneShot.settle, OneShot.mk.injEq, List.replicate_zero,
        List.append_nil, true_and, and_true]
      ext n
      simp
    obtain ⟨times, haccount, htimes⟩ := account_onRead (P := P) hstart received throws choice
    refine ⟨times, ?_, htimes⟩
    rw [haccount]
    exact .settle hread

/-- **When the handler of a read is called at most once**, for a whole run. -/
theorem nodup_calls_iff {parser : π} {es : List (Event χ E)} {u : Reader π E}
    (hr : (machine P E parser).run (machine P E parser).init es = some u) :
    (u.calls.map Prod.fst).Nodup ↔
      (machine P E parser).EachStep (fun s e => HandsMessage P s e → e.throws = none)
        (machine P E parser).init es := by
  have hinit : (machine P E parser).init.account = {} := by
    simp [machine, account]
  refine OneShot.nodup_called_iff_eachStep account (fun s e t _ he => moves_step he) ?_ ?_ hr
  · rw [hinit]
    exact OneShot.sound_empty
  · rw [hinit]
    exact OneShot.numbered_empty

end Reader

end MpRpc.Udp

namespace MpRpc

open Transport (StreamingParser SocketReader StreamSocket MsgpackStreamingParser)

/-- **When the handler of a read is called at most once**, of `stream_socket_helper` and of
`udp_common`: exactly if no handler that is handed a message throws `mprpc::exception`. -/
theorem one_call_per_read_iff {π χ ρ ψ E : Type*} {P : StreamingParser π χ} {minBufSize : Nat}
    {parser : π} {es : List (SocketReader.Event χ)} {u : SocketReader π}
    (hstream : (SocketReader.machine P minBufSize parser).run
      (SocketReader.machine P minBufSize parser).init es = some u)
    {Q : Udp.Parser ρ ψ} {datagramParser : ρ} {fs : List (Udp.Reader.Event ψ E)}
    {v : Udp.Reader ρ E}
    (hudp : (Udp.Reader.machine Q E datagramParser).run
      (Udp.Reader.machine Q E datagramParser).init fs = some v) :
    ((u.calls.map Prod.fst).Nodup ↔
        (SocketReader.machine P minBufSize parser).EachStep
          (fun s e => SocketReader.HandsMessage P s e → e.throws = none)
          (SocketReader.machine P minBufSize parser).init es) ∧
      ((v.calls.map Prod.fst).Nodup ↔
        (Udp.Reader.machine Q E datagramParser).EachStep
          (fun s e => Udp.Reader.HandsMessage Q s e → e.throws = none)
          (Udp.Reader.machine Q E datagramParser).init fs) :=
  ⟨SocketReader.nodup_calls_iff hstream, Udp.Reader.nodup_calls_iff hudp⟩

/-- A socket with the msgpack parser. -/
def msgpackReader : Machine (SocketReader MsgpackStreamingParser)
    (SocketReader.Event Transport.Allocation) :=
  SocketReader.machine (MsgpackStreamingParser.streamingParser Msgpack.framer) 16
    { buffer := .empty fun _ => 0 }

/-- One read, which receives `nil`; its handler throws `throws`. -/
def readsNil (throws : Option ErrorInfo) : List (SocketReader.Event Transport.Allocation) :=
  [.asyncRead (StreamSocket.around throws ⟨some 0, none⟩),
    .readBytes 1 [0xc0] (some 0) (StreamSocket.around throws ⟨some 0, none⟩)]

/-- A UDP socket with the msgpack parser. -/
def msgpackUdpReader : Machine (Udp.Reader Unit Nat) (Udp.Reader.Event Unit Nat) :=
  Udp.Reader.machine (.ofParse Udp.msgpackParse) Nat ()

/-- One read, which receives `nil` from the endpoint 7; its handler throws `throws`. -/
def receivesNil (throws : Option ErrorInfo) : List (Udp.Reader.Event Unit Nat) :=
  [.asyncRead, .completed 1 (.datagram 7 [0xc0]) throws ()]

theorem one_call_per_read_iff_quiet :
    ∃ u v, msgpackReader.run msgpackReader.init (readsNil none) = some u ∧
      msgpackUdpReader.run msgpackUdpReader.init (receivesNil none) = some v ∧
      u.calls.map Prod.fst = [1] ∧ (u.calls.map Prod.fst).Nodup ∧
      v.calls.map Prod.fst = [1] ∧ (v.calls.map Prod.fst).Nodup := by
  have hstream : (msgpackReader.run msgpackReader.init (readsNil none)).map
      (fun u => u.calls.map Prod.fst) = some [1] := by
    decide +kernel
  have hudp : (msgpackUdpReader.run msgpackUdpReader.init (receivesNil none)).map
      (fun v => v.calls.map Prod.fst) = some [1] := by
    decide +kernel
  obtain ⟨u, hu, hucalls⟩ := Option.map_eq_some_iff.mp hstream
  obtain ⟨v, hv, hvcalls⟩ := Option.map_eq_some_iff.mp hudp
  obtain ⟨hstreamOnce, hudpOnce⟩ := one_call_per_read_iff hu hv
  exact ⟨u, v, hu, hv, hucalls, hstreamOnce.mpr ⟨fun _ => rfl, fun _ _ => ⟨fun _ => rfl,
    fun _ _ => trivial⟩⟩, hvcalls, hudpOnce.mpr ⟨fun _ => rfl, fun _ _ => ⟨fun _ => rfl,
    fun _ _ => trivial⟩⟩⟩

/-- The exception of a handler. -/
def handlerError : ErrorInfo := .of .unexpectedError "promise is used already"

/-- Both handlers are handed the message and then called again, with what they threw. -/
theorem handler_called_again :
    ∃ u v, msgpackReader.run msgpackReader.init (readsNil (some handlerError)) = some u ∧
      msgpackUdpReader.run msgpackUdpReader.init (receivesNil (some handlerError)) = some v ∧
      u.calls = [(1, .message [0xc0]), (1, .error handlerError)] ∧
      ¬ (u.calls.map Prod.fst).Nodup ∧ ¬ (v.calls.map Prod.fst).Nodup := by
  have hstream : (msgpackReader.run msgpackReader.init (readsNil (some handlerError))).map
      (·.calls) = some [(1, .message [0xc0]), (1, .error handlerError)] := by
    decide +kernel
  have hudp : (msgpackUdpReader.run msgpackUdpReader.init (receivesNil (some handlerError))).map
      (fun v => v.calls.map Prod.fst) = some [1, 1] := by
    decide +kernel
  obtain ⟨u, hu, hucalls⟩ := Option.map_eq_some_iff.mp hstream
  obtain ⟨v, hv, hvcalls⟩ := Option.map_eq_some_iff.mp hudp
  refine ⟨u, v, hu, hv, hucalls, ?_, ?_⟩
  · rw [hucalls]
    decide
  · rw [hvcalls]
    decide

end MpRpc
