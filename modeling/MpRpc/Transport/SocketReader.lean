import MpRpc.OneShot
import MpRpc.Transport.StreamSocket

/-!
# SocketReader — the handler of a read is to be called once

The reading half of `stream_socket_helper` for any `streaming_parser`, and with any
number of reads outstanding. The received bytes are whatever an event says, and so is
what the handlers do. `parse_next` calls the handler inside the `try` block whose
`catch` clause calls it too, so that a handler that throws `mprpc::exception` when it
is handed a message is called again.

`StreamSocket` is this reader with the msgpack parser and one read at a time.
-/

namespace MpRpc.Transport

/-- `streaming_parser`, as a socket uses it. `none` is an exception other than
`mprpc::exception`; `χ` is what a call depends on besides the parser, such as the
allocator. -/
structure StreamingParser (π χ : Type*) where
  prepareBuffer : π → Nat → χ → Option π
  /-- the caller writes from `buffer()` on -/
  store : π → Bytes → π
  consumed : π → Nat → π
  parseNext : π → Nat → χ → Option (Except ErrorInfo Bool) × π
  get : π → χ → Option (Except ErrorInfo MessageData) × π

/-- `parse_next` finds a message and `get` returns it. -/
def StreamingParser.Finds {π χ : Type*} (P : StreamingParser π χ) (parser : π) (numBytes : Nat)
    (choice : χ) : Prop :=
  (P.parseNext parser numBytes choice).1 = some (.ok true) ∧
    ∃ message, (P.get (P.parseNext parser numBytes choice).2 choice).1 = some (.ok message)

/-- The reading half of `stream_socket_helper`: the reads whose `async_read_some` is
outstanding, each with its number and the room it was given; the number of `async_read`
calls so far; and the calls of their handlers. -/
structure SocketReader (π : Type*) where
  parser : π
  waiting : List (Nat × Nat) := []
  reads : Nat := 0
  calls : List (Nat × ReadCall) := []

namespace SocketReader

variable {π χ : Type*} {P : StreamingParser π χ}

/-- What a function meets: the exception that the handler throws when it is handed a
message, the value of `available()` in `do_read_bytes`, and what the parser depends on. -/
structure Surroundings (χ : Type*) where
  throws : Option ErrorInfo
  parsing : χ
  available : Option Nat
  preparing : χ

inductive Event (χ : Type*) where
  /-- `async_read`: the posted `do_read_message` runs -/
  | asyncRead (around : Surroundings χ)
  /-- the `async_read_some` of a read completes with `bytes` -/
  | readBytes (read : Nat) (bytes : Bytes) (available : Option Nat) (around : Surroundings χ)
  /-- the `async_read_some` of a read completes with an error -/
  | readError (read : Nat) (err : StreamSocket.SocketError)

/-- The handler of `read` is called. -/
def call (s : SocketReader π) (read : Nat) (c : ReadCall) : SocketReader π :=
  { s with calls := s.calls ++ [(read, c)] }

/-- `handler(error_info(), message)` inside the `try` block of `parse_next`. -/
def deliver (s : SocketReader π) (read : Nat) (message : MessageData)
    (throws : Option ErrorInfo) : SocketReader π :=
  match throws with
  | none => s.call read (.message message)
  | some info => (s.call read (.message message)).call read (.error info)

/-- `parse_next`: whether to finish the process; `none` when an exception leaves it. -/
def parseNext (P : StreamingParser π χ) (s : SocketReader π) (read numBytes : Nat)
    (around : Surroundings χ) : Option Bool × SocketReader π :=
  match P.parseNext s.parser numBytes around.parsing with
  | (none, parser) => (none, { s with parser := parser })
  | (some (.error info), parser) =>
      (some true, ({ s with parser := parser }).call read (.error info))
  | (some (.ok false), parser) => (some false, { s with parser := parser })
  | (some (.ok true), parser) =>
      match P.get parser around.parsing with
      | (none, parser) => (none, { s with parser := parser })
      | (some (.error info), parser) =>
          (some true, ({ s with parser := parser }).call read (.error info))
      | (some (.ok message), parser) =>
          (some true, ({ s with parser := parser }).deliver read message around.throws)

/-- `do_read_bytes`; an exception drops the handler. -/
def doReadBytes (P : StreamingParser π χ) (minBufSize : Nat) (s : SocketReader π) (read : Nat)
    (around : Surroundings χ) : SocketReader π :=
  match around.available with
  | none => s
  | some available =>
      let bufSize := max minBufSize available
      match P.prepareBuffer s.parser bufSize around.preparing with
      | none => s
      | some parser =>
          { s with parser := parser, waiting := s.waiting ++ [(read, bufSize)] }

/-- `parse_next`, and `do_read_bytes` if the process is not finished by it. -/
def parseOrRead (P : StreamingParser π χ) (minBufSize : Nat) (s : SocketReader π)
    (read numBytes : Nat) (around : Surroundings χ) : SocketReader π :=
  match s.parseNext P read numBytes around with
  | (some false, s) => s.doReadBytes P minBufSize read around
  | (_, s) => s

/-- `do_read_message` -/
def doReadMessage (P : StreamingParser π χ) (minBufSize : Nat) (s : SocketReader π) (read : Nat)
    (around : Surroundings χ) : SocketReader π :=
  s.parseOrRead P minBufSize read 0 around

/-- `on_read_bytes` without an error. -/
def onReadBytes (P : StreamingParser π χ) (minBufSize : Nat) (s : SocketReader π)
    (read numBytes : Nat) (available : Option Nat) (around : Surroundings χ) : SocketReader π :=
  match available with
  | none => s
  | some 0 => s.parseOrRead P minBufSize read numBytes around
  | some (_ + 1) =>
      ({ s with parser := P.consumed s.parser numBytes }).doReadBytes P minBufSize read around

/-- `on_read_bytes` with an error. -/
def onReadError (s : SocketReader π) (read : Nat) : StreamSocket.SocketError → SocketReader π
  | .operationAborted => s
  | .eof => s.call read (.error (.of .eof "connection closed"))
  | .other message => s.call read (.error (.of .failedToRead message))

/-- The `async_read_some` of `read` is outstanding no more. -/
def complete (s : SocketReader π) (read : Nat) : SocketReader π :=
  { s with waiting := s.waiting.filter (·.1 ≠ read) }

def step (P : StreamingParser π χ) (minBufSize : Nat) (s : SocketReader π) :
    Event χ → Option (SocketReader π)
  | .asyncRead around =>
      some (({ s with reads := s.reads + 1 }).doReadMessage P minBufSize (s.reads + 1) around)
  | .readBytes read bytes available around =>
      match s.waiting.find? (·.1 = read) with
      | none => none
      | some (_, bufSize) =>
          if bytes.length ≤ bufSize then
            some (({ s.complete read with parser := P.store s.parser bytes }).onReadBytes P
              minBufSize read bytes.length available around)
          else none
  | .readError read err =>
      match s.waiting.find? (·.1 = read) with
      | none => none
      | some _ => some ((s.complete read).onReadError read err)

/-- The reader of a socket whose parser is at first `parser`. -/
def machine (P : StreamingParser π χ) (minBufSize : Nat) (parser : π) :
    Machine (SocketReader π) (Event χ) where
  init := { parser := parser }
  step := step P minBufSize

/-! ## The account of the handlers -/

/-- Reads, those outstanding, and the calls of their handlers. -/
def account (s : SocketReader π) : OneShot where
  issued := s.reads
  pending := { read | read ∈ s.waiting.map Prod.fst }
  called := s.calls.map Prod.fst

/-- The message handed to the handler in this event, if there is one. -/
def HandsMessage (P : StreamingParser π χ) (s : SocketReader π) : Event χ → Prop
  | .asyncRead around => P.Finds s.parser 0 around.parsing
  | .readBytes _ bytes (some 0) around =>
      P.Finds (P.store s.parser bytes) bytes.length around.parsing
  | _ => False

/-- What the handler throws when it is handed a message in this event. -/
def Event.throws : Event χ → Option ErrorInfo
  | .asyncRead around => around.throws
  | .readBytes _ _ _ around => around.throws
  | .readError _ _ => none

variable {s : SocketReader π} {a : OneShot} {read : Nat}

theorem account_call {times : Nat} (h : s.account = a.settle read times) (c : ReadCall) :
    (s.call read c).account = a.settle read (times + 1) := by
  rw [OneShot.settle_succ, ← h]
  simp [account, call]

/-- A handler that throws when it is handed a message is called twice. -/
theorem account_deliver (h : s.account = a.settle read 0) (message : MessageData)
    (throws : Option ErrorInfo) :
    ∃ times, (s.deliver read message throws).account = a.settle read times ∧
      (times ≤ 1 ↔ throws = none) := by
  cases throws with
  | none => exact ⟨1, account_call h _, by simp⟩
  | some info => exact ⟨2, account_call (account_call h _) _, by simp⟩

/-- `do_read_bytes` lets the read wait again, or drops its handler. -/
theorem moves_doReadBytes (h : s.account = a.settle read 0) (hread : read ∈ a.pending)
    (minBufSize : Nat) (around : Surroundings χ) :
    a.Moves 0 (s.doReadBytes P minBufSize read around).account := by
  have hdropped : a.Moves 0 s.account := by
    rw [h]
    exact .settle hread
  rw [doReadBytes]
  cases around.available with
  | none => exact hdropped
  | some available =>
    simp only
    cases P.prepareBuffer s.parser (max minBufSize available) around.preparing with
    | none => exact hdropped
    | some parser =>
      have hsame : (account
          { s with
            parser := parser
            waiting := s.waiting ++ [(read, max minBufSize available)] }) = a := by
        injection h with hissued hpending hcalled
        obtain ⟨issued, pending, called⟩ := a
        simp only [account, OneShot.mk.injEq]
        refine ⟨hissued, ?_, by simpa using hcalled⟩
        have hback : { n | n ∈ (s.waiting ++ [(read, max minBufSize available)]).map Prod.fst } =
            insert read { n | n ∈ s.waiting.map Prod.fst } := by
          ext n
          simp [or_comm]
        rw [hback, hpending]
        exact Set.insert_sdiff_self_of_mem hread
      rw [hsame]
      exact .stay a

/-- **What `parse_next` does to the account**: the process goes on and no handler was
called, or it is finished and the handler was called more than once only if it was handed
a message and threw. -/
theorem account_parseNext (h : s.account = a.settle read 0) (numBytes : Nat)
    (around : Surroundings χ) :
    ((∃ t, s.parseNext P read numBytes around = (some false, t) ∧ t.account = s.account) ∧
        ¬ P.Finds s.parser numBytes around.parsing) ∨
      ∃ finished t times, s.parseNext P read numBytes around = (finished, t) ∧
        finished ≠ some false ∧ t.account = a.settle read times ∧
        (times ≤ 1 ↔ (P.Finds s.parser numBytes around.parsing → around.throws = none)) := by
  unfold parseNext StreamingParser.Finds
  obtain ⟨result, parser⟩ := P.parseNext s.parser numBytes around.parsing
  have hparser : ∀ parser, ({ s with parser := parser } : SocketReader π).account =
      a.settle read 0 := fun _ => h
  cases result with
  | none => exact .inr ⟨_, _, 0, rfl, by simp, hparser parser, by simp⟩
  | some result =>
    cases result with
    | error info => exact .inr ⟨_, _, 1, rfl, by simp, account_call (hparser parser) _, by simp⟩
    | ok found =>
      cases found with
      | false => exact .inl ⟨⟨_, rfl, rfl⟩, by simp⟩
      | true =>
        right
        simp only [true_and]
        obtain ⟨got, parser'⟩ := P.get parser around.parsing
        cases got with
        | none => exact ⟨_, _, 0, rfl, by simp, hparser parser', by simp⟩
        | some got =>
          cases got with
          | error info =>
            exact ⟨_, _, 1, rfl, by simp, account_call (hparser parser') _, by simp⟩
          | ok message =>
            obtain ⟨times, ht, htimes⟩ :=
              account_deliver (hparser parser') message around.throws
            exact ⟨_, _, times, rfl, by simp, ht, by simp [htimes]⟩

theorem moves_parseOrRead (h : s.account = a.settle read 0) (hread : read ∈ a.pending)
    (minBufSize numBytes : Nat) (around : Surroundings χ) :
    ∃ times, a.Moves times (s.parseOrRead P minBufSize read numBytes around).account ∧
      (times ≤ 1 ↔ (P.Finds s.parser numBytes around.parsing → around.throws = none)) := by
  rw [parseOrRead]
  rcases account_parseNext h numBytes around with
    ⟨⟨t, ht, haccount⟩, hfinds⟩ | ⟨finished, t, times, ht, hfinished, haccount, htimes⟩
  · rw [ht]
    exact ⟨0, moves_doReadBytes (haccount.trans h) hread minBufSize around, by simp [hfinds]⟩
  · rw [ht]
    refine ⟨times, ?_, htimes⟩
    have hmoves : a.Moves times t.account := by
      rw [haccount]
      exact .settle hread
    cases finished with
    | none => exact hmoves
    | some finished =>
      cases finished with
      | false => exact absurd rfl hfinished
      | true => exact hmoves

theorem account_complete (s : SocketReader π) (read : Nat) (parser : π) :
    ({ s.complete read with parser := parser } : SocketReader π).account =
      s.account.settle read 0 := by
  simp only [account, complete, OneShot.settle, OneShot.mk.injEq, List.replicate_zero,
    List.append_nil, true_and, and_true]
  ext n
  simp only [List.mem_map, List.mem_filter, Set.mem_ofPred_eq, Set.mem_sdiff, Set.mem_singleton_iff,
    decide_eq_true_eq]
  constructor
  · rintro ⟨entry, ⟨hmem, hne⟩, rfl⟩
    exact ⟨⟨entry, hmem, rfl⟩, hne⟩
  · rintro ⟨⟨entry, hmem, rfl⟩, hne⟩
    exact ⟨entry, ⟨hmem, hne⟩, rfl⟩

theorem mem_pending_of_find {entry : Nat × Nat} (h : s.waiting.find? (·.1 = read) = some entry) :
    read ∈ s.account.pending := by
  have hentry : entry.1 = read := by simpa using List.find?_some h
  exact List.mem_map.mpr ⟨entry, List.mem_of_find?_eq_some h, hentry⟩

/-- **One event calls a handler twice only by handing it a message on which it throws.** -/
theorem moves_step (hnum : s.account.Numbered) {t : SocketReader π} {minBufSize : Nat}
    {e : Event χ} (he : step P minBufSize s e = some t) :
    ∃ times, s.account.Moves times t.account ∧
      (times ≤ 1 ↔ (HandsMessage P s e → e.throws = none)) := by
  cases e with
  | asyncRead around =>
    simp only [step, Option.some.injEq] at he
    subst he
    -- the new read is not among those outstanding before `do_read_bytes`
    have hstart : ({ s with reads := s.reads + 1 } : SocketReader π).account =
        s.account.issue.settle (s.reads + 1) 0 := by
      have hnew : s.reads + 1 ∉ s.account.pending := hnum.new_notMem_pending
      simp only [account, OneShot.issue, OneShot.settle, OneShot.mk.injEq, List.replicate_zero,
        List.append_nil, true_and, and_true]
      exact (Set.insert_sdiff_self_of_notMem hnew).symm
    obtain ⟨times, hmoves, htimes⟩ := moves_parseOrRead (P := P) hstart (Set.mem_insert _ _)
      minBufSize 0 around
    exact ⟨times, .issue hmoves, htimes⟩
  | readBytes read bytes available around =>
    cases hfind : s.waiting.find? (·.1 = read) with
    | none => simp [step, hfind] at he
    | some entry =>
      simp only [step, hfind, Option.ite_none_right_eq_some, Option.some.injEq] at he
      obtain ⟨-, rfl⟩ := he
      have hread := mem_pending_of_find hfind
      have hstart := account_complete s read (P.store s.parser bytes)
      cases available with
      | none =>
        refine ⟨0, ?_, by simp [HandsMessage]⟩
        show s.account.Moves 0
          ({ s.complete read with parser := P.store s.parser bytes } : SocketReader π).account
        rw [hstart]
        exact .settle hread
      | some available =>
        cases available with
        | zero => exact moves_parseOrRead hstart hread minBufSize bytes.length around
        | succ available =>
          exact ⟨0, moves_doReadBytes (account_complete s read _) hread minBufSize around,
            by simp [HandsMessage]⟩
  | readError read err =>
    cases hfind : s.waiting.find? (·.1 = read) with
    | none => simp [step, hfind] at he
    | some entry =>
      simp only [step, hfind, Option.some.injEq] at he
      subst he
      have hread := mem_pending_of_find hfind
      have hstart : (s.complete read).account = s.account.settle read 0 :=
        account_complete s read s.parser
      cases err with
      | operationAborted =>
        refine ⟨0, ?_, by simp [HandsMessage]⟩
        rw [onReadError, hstart]
        exact .settle hread
      | eof =>
        refine ⟨1, ?_, by simp [HandsMessage]⟩
        rw [onReadError, account_call hstart]
        exact .settle hread
      | other message =>
        refine ⟨1, ?_, by simp [HandsMessage]⟩
        rw [onReadError, account_call hstart]
        exact .settle hread

/-- **When the handler of a read is called at most once**, for a whole run. -/
theorem nodup_calls_iff {minBufSize : Nat} {parser : π} {es : List (Event χ)}
    {u : SocketReader π}
    (hr : (machine P minBufSize parser).run (machine P minBufSize parser).init es = some u) :
    (u.calls.map Prod.fst).Nodup ↔
      (machine P minBufSize parser).EachStep (fun s e => HandsMessage P s e → e.throws = none)
        (machine P minBufSize parser).init es := by
  have hinit : (machine P minBufSize parser).init.account = {} := by
    simp [machine, account]
  refine OneShot.nodup_called_iff_eachStep account (fun s e t hnum he => moves_step hnum he)
    ?_ ?_ hr
  · rw [hinit]
    exact OneShot.sound_empty
  · rw [hinit]
    exact OneShot.numbered_empty

end SocketReader

/-! ## One read at a time, with the msgpack parser -/

/-- `msgpack_streaming_parser` as a `streaming_parser`. -/
def MsgpackStreamingParser.streamingParser (F : Framer UInt8) :
    StreamingParser MsgpackStreamingParser Allocation where
  prepareBuffer := prepareBuffer
  store := store
  consumed := consumed
  parseNext p numBytes _ := (some (p.parseNext F numBytes).1, (p.parseNext F numBytes).2)
  get p _ := (some (.ok p.get.1), p.get.2)

namespace StreamSocket

open MsgpackStreamingParser (streamingParser)

/-- The reader while the handler of the read is at hand, or dropped. -/
def inHand (s : StreamSocket) : SocketReader MsgpackStreamingParser where
  parser := s.parser
  reads := s.reads
  calls := s.calls

/-- The reader between two events. -/
def reader (s : StreamSocket) : SocketReader MsgpackStreamingParser :=
  match s.phase with
  | .waiting bufSize => { s.inHand with waiting := [(s.reads, bufSize)] }
  | _ => s.inHand

def around (throws : Option ErrorInfo) (next : Preparation) :
    SocketReader.Surroundings Allocation where
  throws := throws
  parsing := none
  available := next.available
  preparing := next.allocation

/-- An event of the socket as one of the reader. -/
def Event.reader (s : StreamSocket) : Event → SocketReader.Event Allocation
  | .asyncRead throws next => .asyncRead (around throws next)
  | .readBytes numBytes available throws next =>
      .readBytes s.reads (s.incoming.take numBytes) available (around throws next)
  | .readError err => .readError s.reads err

variable {F : Framer UInt8}

theorem reader_deliver (s : StreamSocket) (message : MessageData) (throws : Option ErrorInfo) :
    (s.deliver message throws).reader = s.inHand.deliver s.reads message throws := by
  cases throws <;> rfl

theorem reader_doReadBytes (s : StreamSocket) (minBufSize : Nat) (throws : Option ErrorInfo)
    (next : Preparation) :
    (s.doReadBytes minBufSize next).reader =
      s.inHand.doReadBytes (streamingParser F) minBufSize s.reads (around throws next) := by
  simp only [doReadBytes, SocketReader.doReadBytes, around]
  cases next.available with
  | none => rfl
  | some available =>
    simp only [streamingParser, inHand]
    cases s.parser.prepareBuffer (max minBufSize available) next.allocation with
    | none => rfl
    | some parser => rfl

theorem reader_parseNext (s : StreamSocket) (numBytes : Nat) (throws : Option ErrorInfo)
    (next : Preparation) :
    s.inHand.parseNext (streamingParser F) s.reads numBytes (around throws next) =
      match s.parseNext F numBytes throws with
      | (true, t) => (some true, t.reader)
      | (false, t) => (some false, t.inHand) := by
  simp only [parseNext, SocketReader.parseNext, streamingParser, inHand]
  obtain ⟨result, parser⟩ := s.parser.parseNext F numBytes
  cases result with
  | error info => rfl
  | ok found =>
    cases found with
    | false => rfl
    | true =>
      simp only
      rw [reader_deliver]
      rfl

theorem reader_parseOrRead (s : StreamSocket) (minBufSize numBytes : Nat)
    (throws : Option ErrorInfo) (next : Preparation) :
    (s.onReadBytes F minBufSize numBytes (some 0) throws next).reader =
      s.inHand.parseOrRead (streamingParser F) minBufSize s.reads numBytes
        (around throws next) := by
  rw [onReadBytes, SocketReader.parseOrRead, reader_parseNext]
  have hreads : (s.parseNext F numBytes throws).2.reads = s.reads := by
    simp only [parseNext]
    obtain ⟨result, parser⟩ := s.parser.parseNext F numBytes
    cases result with
    | error info => rfl
    | ok found =>
      cases found with
      | false => rfl
      | true => cases throws <;> rfl
  cases hnext : s.parseNext F numBytes throws with
  | mk finished t =>
    rw [hnext] at hreads
    cases finished with
    | true => rfl
    | false =>
      simp only
      rw [reader_doReadBytes t minBufSize throws next, hreads]

theorem find_reader {s : StreamSocket} {bufSize : Nat} (hp : s.phase = .waiting bufSize) :
    s.reader.waiting.find? (·.1 = s.reads) = some (s.reads, bufSize) := by
  simp [reader, hp]

theorem complete_reader {s : StreamSocket} {bufSize : Nat} (hp : s.phase = .waiting bufSize) :
    s.reader.complete s.reads = s.inHand := by
  simp [reader, hp, SocketReader.complete, inHand]

/-- **One event of the socket is one event of the reader.** -/
theorem step_reader {s t : StreamSocket} {minBufSize : Nat} {e : Event}
    (he : step F minBufSize s e = some t) :
    SocketReader.step (streamingParser F) minBufSize s.reader (e.reader s) = some t.reader := by
  cases e with
  | asyncRead throws next =>
    cases hp : s.phase with
    | waiting bufSize => simp [step, hp] at he
    | dropped => simp [step, hp] at he
    | idle =>
      simp only [step, hp, Option.some.injEq] at he
      subst he
      have hreader : s.reader = s.inHand := by simp [reader, hp]
      rw [hreader]
      -- `do_read_message` goes on as `on_read_bytes` does after no bytes
      exact congrArg some (reader_parseOrRead
        { s with phase := .idle, reads := s.reads + 1 } minBufSize 0 throws next).symm
  | readBytes numBytes available throws next =>
    cases hp : s.phase with
    | idle => simp [step, hp] at he
    | dropped => simp [step, hp] at he
    | waiting bufSize =>
      simp only [step, hp, Option.ite_none_right_eq_some, Option.some.injEq] at he
      obtain ⟨⟨-, hle, hin⟩, rfl⟩ := he
      have hlen : (s.incoming.take numBytes).length = numBytes := by
        rw [List.length_take, Nat.min_eq_left hin]
      have hparser : s.reader.parser = s.parser := by simp [reader, hp, inHand]
      simp only [Event.reader, SocketReader.step, find_reader hp, hlen, hle, if_true,
        complete_reader hp, hparser, Option.some.injEq]
      cases available with
      | none => rfl
      | some available =>
        cases available with
        | zero =>
          exact (reader_parseOrRead (s.receive numBytes) minBufSize numBytes throws next).symm
        | succ available =>
          rw [onReadBytes, reader_doReadBytes _ minBufSize throws next]
          rfl
  | readError err =>
    cases hp : s.phase with
    | idle => simp [step, hp] at he
    | dropped => simp [step, hp] at he
    | waiting bufSize =>
      simp only [step, hp, Option.some.injEq] at he
      subst he
      simp only [Event.reader, SocketReader.step, find_reader hp, complete_reader hp]
      cases err <;> rfl

/-- **Every run of the socket is a run of the reader**, with the same calls. -/
theorem exists_run_reader {minBufSize : Nat} {fresh : Nat → UInt8} {stream : Bytes}
    {es : List Event} {s u : StreamSocket}
    (hr : (machine F minBufSize fresh stream).run s es = some u) :
    ∃ fs, (SocketReader.machine (streamingParser F) minBufSize { buffer := .empty fresh }).run
      s.reader fs = some u.reader := by
  induction es generalizing s with
  | nil =>
    cases hr
    exact ⟨[], rfl⟩
  | cons e es ih =>
    obtain ⟨t, ht, hr⟩ := (Machine.run_cons _).mp hr
    obtain ⟨fs, hfs⟩ := ih hr
    exact ⟨e.reader s :: fs, (Machine.run_cons _).mpr ⟨t.reader, step_reader ht, hfs⟩⟩

end StreamSocket

end MpRpc.Transport
