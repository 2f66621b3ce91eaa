import MpRpc.Relay
import MpRpc.Transport.StreamCodec
import MpRpc.Transport.WriteSafety

/-!
# StreamLink — one direction of a connection

The writing half of the `stream_socket_helper` at one end, the bytes between the two
sockets, and the reading half of the one at the other end. Bytes arrive in order, in
pieces of any size and at any time; writes and reads may fail; the allocator and
`available()` answer as they like. The user of the reading half has one `async_read`
outstanding at a time, and its handler throws no `mprpc::exception`, so that it is not
called again by the `catch` clause of `parse_next`.
-/

namespace MpRpc.Transport

open Msgpack (framer)

/-- The two halves, and how many of the bytes on the socket have been received. -/
structure StreamLink (K : StreamCodec) where
  writer : WriteQueue K.Sender
  received : Nat := 0
  reader : SocketReader K.Reader

namespace StreamLink

variable {K : StreamCodec} {minBufSize : Nat}

inductive Event (K : StreamCodec) where
  | write (e : WriteQueue.Event)
  | read (e : SocketReader.Event K.Choice)

/-- No read is outstanding, and the handler of every read has been called. -/
def Idle (s : StreamLink K) : Prop :=
  s.reader.waiting = [] ∧ s.reader.calls.length = s.reader.reads

instance (s : StreamLink K) : Decidable s.Idle :=
  inferInstanceAs (Decidable (_ ∧ _))

/-- The reading half may do this: a new read after the last, or bytes that are there. -/
def Enabled (s : StreamLink K) : SocketReader.Event K.Choice → Prop
  | .asyncRead around => s.Idle ∧ around.throws = none
  | .readBytes _ bytes _ around =>
      bytes <+: s.writer.wire.drop s.received ∧ around.throws = none
  | .readError _ _ => True

instance (s : StreamLink K) : DecidablePred s.Enabled
  | .asyncRead around => inferInstanceAs (Decidable (s.Idle ∧ around.throws = none))
  | .readBytes _ bytes _ around =>
      inferInstanceAs
        (Decidable (bytes <+: s.writer.wire.drop s.received ∧ around.throws = none))
  | .readError _ _ => .isTrue trivial

/-- The bytes that an event of the reading half takes off the socket. -/
def taken : SocketReader.Event K.Choice → Nat
  | .readBytes _ bytes _ _ => bytes.length
  | _ => 0

def step (K : StreamCodec) (minBufSize : Nat) (s : StreamLink K) :
    Event K → Option (StreamLink K)
  | .write e => (s.writer.step K.compressor e).map fun writer => { s with writer }
  | .read e =>
      if s.Enabled e then
        (s.reader.step K.parser minBufSize e).map fun reader =>
          { s with reader, received := s.received + taken e }
      else none

/-- A connection that has just been made. -/
def machine (K : StreamCodec) (minBufSize : Nat) : Machine (StreamLink K) (Event K) where
  init := { writer := { compressor := K.compressor.init }, reader := { parser := K.start } }
  step := step K minBufSize

/-- The messages that have been handed to the handlers of the reads. -/
def handed (calls : List (Nat × ReadCall)) : List MessageData :=
  calls.filterMap fun
    | (_, .message data) => some data
    | (_, .error _) => none

/-- An error that `on_read_bytes` makes of an error of the socket. -/
def IsSocketError (info : ErrorInfo) : Prop :=
  info = .of .eof "connection closed" ∨ ∃ message, info = .of .failedToRead message

/-! ## The reading half -/

section Reader

variable {r u : SocketReader K.Reader} {unseen : Bytes} {left : List MessageData}

/-- Where the reading half stands: no read, one read that waits for bytes, or a read whose
handler was dropped, after which nothing is read. -/
inductive Reading (r : SocketReader K.Reader) (unseen : Bytes) (left : List MessageData) :
    Prop where
  | idle (waiting : r.waiting = []) (calls : r.calls.length = r.reads)
      (position : K.Position r.parser unseen left) : Reading r unseen left
  | waits {bufSize : Nat} (waiting : r.waiting = [(r.reads, bufSize)])
      (calls : r.calls.length + 1 = r.reads) (room : K.Room r.parser bufSize)
      (position : K.Position r.parser unseen left) : Reading r unseen left
  | dropped (waiting : r.waiting = []) (calls : r.calls.length < r.reads) : Reading r unseen left

/-- What an event of the reading half leads to, after the calls `before`: no call, the next
message, or, if it is a failure of the socket, a call with that error. -/
inductive Reads (fails : Prop) (before : List (Nat × ReadCall)) (u : SocketReader K.Reader)
    (unseen : Bytes) (left : List MessageData) : Prop where
  | silent (calls : u.calls = before) (reading : Reading u unseen left) :
      Reads fails before u unseen left
  | message {read : Nat} {m : MessageData} {rest : List MessageData}
      (calls : u.calls = before ++ [(read, .message m)]) (hleft : left = m :: rest)
      (reading : Reading u unseen rest) : Reads fails before u unseen left
  | error {read : Nat} {info : ErrorInfo} (hfails : fails)
      (calls : u.calls = before ++ [(read, .error info)]) (hinfo : IsSocketError info)
      (reading : Reading u unseen left) : Reads fails before u unseen left

/-- A read is at hand: it is the last one, and its handler has not been called. -/
structure AtHand (r : SocketReader K.Reader) : Prop where
  waiting : r.waiting = []
  calls : r.calls.length + 1 = r.reads

theorem AtHand.dropped (h : AtHand r) : Reading r unseen left :=
  .dropped h.waiting (by have := h.calls; omega)

/-- **`do_read_bytes`** lets the read wait, or drops its handler. -/
theorem AtHand.doReadBytes (h : AtHand r) (minBufSize : Nat)
    (hp : K.Position r.parser unseen left) (around : SocketReader.Surroundings K.Choice) :
    (r.doReadBytes K.parser minBufSize r.reads around).calls = r.calls ∧
      Reading (r.doReadBytes K.parser minBufSize r.reads around) unseen left := by
  unfold SocketReader.doReadBytes
  cases around.available with
  | none => exact ⟨rfl, h.dropped⟩
  | some available =>
    simp only
    cases hq : K.parser.prepareBuffer r.parser (max minBufSize available) around.preparing with
    | none => exact ⟨rfl, h.dropped⟩
    | some q =>
      obtain ⟨hposition, hroom⟩ := K.position_prepareBuffer hp hq
      refine ⟨rfl, .waits ?_ h.calls hroom hposition⟩
      show r.waiting ++ _ = _
      rw [h.waiting]
      rfl

/-- **`parse_next` and what follows**: the next message, or no call. -/
theorem AtHand.parseOrRead (h : AtHand r) {numBytes : Nat}
    (hp : K.Position (K.parser.consumed r.parser numBytes) unseen left)
    (hleft : ∀ m ∈ left, framer.IsFrame m) {around : SocketReader.Surroundings K.Choice}
    (hthrows : around.throws = none) :
    Reads False r.calls (r.parseOrRead K.parser minBufSize r.reads numBytes around)
      unseen left := by
  unfold SocketReader.parseOrRead SocketReader.parseNext
  rcases K.position_parseNext around.parsing hp hleft with
    hnone | ⟨hfalse, hposition⟩ | ⟨htrue, m, rest, hm, hget, hposition⟩
  · generalize K.parser.parseNext r.parser numBytes around.parsing = out at hnone ⊢
    obtain ⟨result, q⟩ := out
    cases hnone
    have hnext : AtHand ({ r with parser := q } : SocketReader K.Reader) := ⟨h.waiting, h.calls⟩
    exact .silent rfl hnext.dropped
  · generalize K.parser.parseNext r.parser numBytes around.parsing = out at hfalse hposition ⊢
    obtain ⟨result, q⟩ := out
    cases hfalse
    have hnext : AtHand ({ r with parser := q } : SocketReader K.Reader) := ⟨h.waiting, h.calls⟩
    obtain ⟨hcalls, hreading⟩ := hnext.doReadBytes minBufSize hposition around
    exact .silent hcalls hreading
  · generalize K.parser.parseNext r.parser numBytes around.parsing = out at htrue hget hposition ⊢
    obtain ⟨result, q⟩ := out
    cases htrue
    simp only at hget hposition ⊢
    generalize K.parser.get q around.parsing = got at hget hposition ⊢
    obtain ⟨message, q'⟩ := got
    cases hget
    simp only [SocketReader.deliver, hthrows]
    refine .message rfl hm (.idle h.waiting ?_ hposition)
    show (r.calls ++ [_]).length = r.reads
    rw [List.length_append]
    exact h.calls

/-- **A read begins.** -/
theorem Reading.asyncRead (h : Reading r unseen left) (hleft : ∀ m ∈ left, framer.IsFrame m)
    (hwaiting : r.waiting = []) (hcalls : r.calls.length = r.reads)
    {around : SocketReader.Surroundings K.Choice} (hthrows : around.throws = none)
    (hs : r.step K.parser minBufSize (.asyncRead around) = some u) :
    Reads False r.calls u unseen left := by
  cases hs
  cases h with
  | waits waiting _ _ _ =>
    rw [hwaiting] at waiting
    cases waiting
  | dropped _ calls => omega
  | idle _ _ position =>
    have hat : AtHand ({ r with reads := r.reads + 1 } : SocketReader K.Reader) :=
      ⟨hwaiting, by show r.calls.length + 1 = r.reads + 1; omega⟩
    exact hat.parseOrRead (K.position_consumed_zero position) hleft hthrows

/-- The read that waits is the last one. -/
theorem find_waiting {bufSize read : Nat} {entry : Nat × Nat}
    (h : r.waiting = [(r.reads, bufSize)]) (hfind : r.waiting.find? (·.1 = read) = some entry) :
    read = r.reads ∧ entry = (r.reads, bufSize) := by
  rw [h] at hfind
  by_cases hread : r.reads = read
  · subst hread
    simp at hfind
    exact ⟨rfl, hfind.symm⟩
  · simp [hread] at hfind

theorem complete_waiting {bufSize : Nat} (h : r.waiting = [(r.reads, bufSize)]) :
    (r.complete r.reads).waiting = [] := by
  simp [SocketReader.complete, h]

/-- **Bytes are received.** -/
theorem Reading.readBytes {bytes : Bytes} (h : Reading r (bytes ++ unseen) left)
    (hleft : ∀ m ∈ left, framer.IsFrame m) {read : Nat} {available : Option Nat}
    {around : SocketReader.Surroundings K.Choice} (hthrows : around.throws = none)
    (hs : r.step K.parser minBufSize (.readBytes read bytes available around) = some u) :
    Reads False r.calls u unseen left := by
  cases h with
  | idle waiting _ _ => simp [SocketReader.step, waiting] at hs
  | dropped waiting _ => simp [SocketReader.step, waiting] at hs
  | @waits bufSize waiting calls room position =>
    cases hfind : r.waiting.find? (·.1 = read) with
    | none => simp [SocketReader.step, hfind] at hs
    | some entry =>
      obtain ⟨rfl, rfl⟩ := find_waiting waiting hfind
      simp only [SocketReader.step, hfind, Option.ite_none_right_eq_some,
        Option.some.injEq] at hs
      obtain ⟨hle, rfl⟩ := hs
      have hposition := K.position_receive position room hle
      have hat : ∀ parser, AtHand
          ({ r.complete r.reads with parser := parser } : SocketReader K.Reader) :=
        fun _ => ⟨complete_waiting waiting, calls⟩
      cases available with
      | none => exact .silent rfl (hat _).dropped
      | some available =>
        cases available with
        | zero => exact (hat _).parseOrRead hposition hleft hthrows
        | succ available =>
          obtain ⟨hcalls, hreading⟩ := (hat _).doReadBytes minBufSize hposition around
          exact .silent hcalls hreading

/-- **The socket fails.** -/
theorem Reading.readError (h : Reading r unseen left) {read : Nat}
    {err : StreamSocket.SocketError}
    (hs : r.step K.parser minBufSize (.readError read err) = some u) :
    Reads True r.calls u unseen left := by
  cases h with
  | idle waiting _ _ => simp [SocketReader.step, waiting] at hs
  | dropped waiting _ => simp [SocketReader.step, waiting] at hs
  | @waits bufSize waiting calls room position =>
    cases hfind : r.waiting.find? (·.1 = read) with
    | none => simp [SocketReader.step, hfind] at hs
    | some entry =>
      obtain ⟨rfl, rfl⟩ := find_waiting waiting hfind
      simp only [SocketReader.step, hfind, Option.some.injEq] at hs
      subst hs
      have hnone := complete_waiting waiting
      have hcalled : ∀ info,
          Reading ((r.complete r.reads).call r.reads (.error info)) unseen left := by
        intro info
        refine .idle hnone ?_ position
        show (r.calls ++ [_]).length = r.reads
        rw [List.length_append]
        exact calls
      cases err with
      | operationAborted =>
        exact .silent rfl (AtHand.dropped ⟨hnone, calls⟩)
      | eof => exact .error trivial rfl (.inl rfl) (hcalled _)
      | other message => exact .error trivial rfl (.inr ⟨message, rfl⟩) (hcalled _)

/-- Messages are appended to the stream. -/
theorem Reading.append (h : Reading r unseen left) {c : K.Sender} {messages : List MessageData}
    (hc : K.Ready c) (hmessages : ∀ m ∈ messages, framer.IsFrame m) :
    Reading r (unseen ++ (K.compressor.compressAll c messages).1) (left ++ messages) := by
  cases h with
  | idle waiting calls position =>
    exact .idle waiting calls (K.position_compressAll hc hmessages position)
  | waits waiting calls room position =>
    exact .waits waiting calls room (K.position_compressAll hc hmessages position)
  | dropped waiting calls => exact .dropped waiting calls

end Reader

/-! ## The two halves -/

/-- The bytes that the messages compressed so far give on the socket. -/
def stream (s : StreamLink K) : Bytes :=
  (K.compressor.compressAll K.compressor.init s.writer.begun).1

structure Inv (s : StreamLink K) : Prop where
  writer : ∃ finished, s.writer.FlowsOrStopped K.compressor finished
  frames : ∀ entry ∈ s.writer.posted ++ s.writer.ran, framer.IsFrame entry.2
  received : s.received ≤ s.writer.wire.length
  /-- What is handed over is the beginning of what is compressed. -/
  reading : ∃ left, s.writer.begun = handed s.reader.calls ++ left ∧
    Reading s.reader (s.stream.drop s.received) left
  errors : ∀ read info, (read, .error info) ∈ s.reader.calls → IsSocketError info

theorem inv_init (K : StreamCodec) (minBufSize : Nat) : (machine K minBufSize).init.Inv where
  writer := ⟨[], .inl ((WriteQueue.settled_init K.compressor).flow rfl)⟩
  frames := by simp [machine]
  received := Nat.zero_le _
  reading := ⟨[], rfl, .idle rfl rfl K.position_start⟩
  errors := by simp [machine]

variable {s t : StreamLink K}

theorem Inv.begun_isFrame (h : s.Inv) : ∀ m ∈ s.writer.begun, framer.IsFrame m := by
  intro m hm
  obtain ⟨entry, hentry, rfl⟩ := List.mem_map.mp hm
  exact h.frames entry (List.mem_append_right _ (List.mem_of_mem_take hentry))

/-- **An event of the writing half** appends to the stream, at most. -/
theorem Inv.write {e : WriteQueue.Event} (h : s.Inv)
    (he : ∀ data, e = .asyncWrite data → framer.IsFrame data)
    (hs : step K minBufSize s (.write e) = some t) : t.Inv ∧ t.reader = s.reader := by
  obtain ⟨writer, hwriter, rfl⟩ := Option.map_eq_some_iff.mp hs
  obtain ⟨finished, hstate⟩ := h.writer
  obtain ⟨left, hbegun, hreading⟩ := h.reading
  obtain ⟨new, hnew⟩ := WriteQueue.begun_step hwriter
  have hframes : ∀ entry ∈ writer.posted ++ writer.ran, framer.IsFrame entry.2 := by
    intro entry hentry
    by_cases hasync : ∃ data, e = .asyncWrite data
    · obtain ⟨data, rfl⟩ := hasync
      cases hwriter
      simp only [List.mem_append, List.mem_singleton] at hentry
      rcases hentry with (hentry | rfl) | hentry
      · exact h.frames entry (List.mem_append_left _ hentry)
      · exact he data rfl
      · exact h.frames entry (List.mem_append_right _ hentry)
    · have hperm := (WriteQueue.perm_step (fun data hdata => hasync ⟨data, hdata⟩) hwriter).1
      exact h.frames entry (hperm.mem_iff.mp hentry)
  have hgrows := WriteQueue.wire_step hwriter
  have hinv : ∀ m ∈ writer.begun, framer.IsFrame m := by
    intro m hm
    obtain ⟨entry, hentry, rfl⟩ := List.mem_map.mp hm
    exact hframes entry (List.mem_append_right _ (List.mem_of_mem_take hentry))
  rw [← hnew] at hinv
  have hready := K.ready_compressAll K.ready_init h.begun_isFrame
  refine ⟨⟨hstate.step hwriter, hframes, Nat.le_trans h.received hgrows.length_le,
    ⟨left ++ new, ?_, ?_⟩, h.errors⟩, rfl⟩
  · rw [← hnew, hbegun, List.append_assoc]
  · have hlength : s.received ≤ s.stream.length :=
      Nat.le_trans h.received hstate.wire.length_le
    have hstream : ({ s with writer } : StreamLink K).stream = s.stream ++
        (K.compressor.compressAll
          (K.compressor.compressAll K.compressor.init s.writer.begun).2 new).1 := by
      rw [stream, ← hnew, StreamingCompressor.compressAll_append]
      rfl
    rw [hstream, List.drop_append_of_le_length hlength]
    exact hreading.append hready fun m hm => hinv m (List.mem_append_right _ hm)

/-- The socket fails. -/
def IsFailure : SocketReader.Event K.Choice → Prop
  | .readError _ _ => True
  | _ => False

/-- What an event of the reading half hands over. -/
inductive Hands (fails : Prop) (s t : StreamLink K) : Prop where
  | silent (calls : t.reader.calls = s.reader.calls) : Hands fails s t
  | message {read : Nat} {m : MessageData}
      (calls : t.reader.calls = s.reader.calls ++ [(read, .message m)])
      (next : handed s.reader.calls ++ [m] <+: s.writer.begun) : Hands fails s t
  | error {read : Nat} {info : ErrorInfo} (hfails : fails)
      (calls : t.reader.calls = s.reader.calls ++ [(read, .error info)])
      (hinfo : IsSocketError info) : Hands fails s t

/-- The reading half has been given `bytes`. -/
theorem Inv.reads (h : s.Inv) {fails : Prop} {reader : SocketReader K.Reader} {received : Nat}
    (hreceived : received ≤ s.writer.wire.length) {left : List MessageData}
    (hbegun : s.writer.begun = handed s.reader.calls ++ left)
    (hreads : Reads fails s.reader.calls reader (s.stream.drop received) left) :
    Inv { s with reader, received } ∧ Hands fails s { s with reader, received } := by
  cases hreads with
  | silent calls reading =>
    refine ⟨⟨h.writer, h.frames, hreceived, ⟨left, ?_, reading⟩, ?_⟩, .silent calls⟩
    · rw [calls]
      exact hbegun
    · rw [calls]
      exact h.errors
  | @message read m rest calls hleft reading =>
    subst hleft
    refine ⟨⟨h.writer, h.frames, hreceived, ⟨rest, ?_, reading⟩, ?_⟩, .message calls ?_⟩
    · rw [calls, handed, List.filterMap_append]
      show s.writer.begun = (handed s.reader.calls ++ [m]) ++ rest
      rw [hbegun, List.append_assoc]
      rfl
    · intro read' info hmem
      rw [calls] at hmem
      simp only [List.mem_append, List.mem_singleton, Prod.mk.injEq, reduceCtorEq, and_false,
        or_false] at hmem
      exact h.errors read' info hmem
    · rw [hbegun]
      exact ⟨rest, by simp⟩
  | @error read info hfails calls hinfo reading =>
    refine ⟨⟨h.writer, h.frames, hreceived, ⟨left, ?_, reading⟩, ?_⟩, .error hfails calls hinfo⟩
    · rw [calls, handed, List.filterMap_append]
      show s.writer.begun = (handed s.reader.calls ++ []) ++ left
      rw [List.append_nil, hbegun]
    · intro read' info' hmem
      rw [calls] at hmem
      simp only [List.mem_append, List.mem_singleton, Prod.mk.injEq, ReadCall.error.injEq] at hmem
      rcases hmem with hmem | ⟨-, rfl⟩
      · exact h.errors read' info' hmem
      · exact hinfo

/-- The bytes that are received are the next of the stream. -/
theorem Inv.receive (h : s.Inv) {bytes : Bytes}
    (hbytes : bytes <+: s.writer.wire.drop s.received) :
    s.stream.drop s.received = bytes ++ s.stream.drop (s.received + bytes.length) ∧
      s.received + bytes.length ≤ s.writer.wire.length := by
  obtain ⟨finished, hstate⟩ := h.writer
  obtain ⟨more, hmore⟩ := hstate.wire
  constructor
  · obtain ⟨rest, hrest⟩ := hbytes
    have hsplit : s.stream.drop s.received = bytes ++ (rest ++ more) := by
      rw [stream, ← hmore, List.drop_append_of_le_length h.received, ← hrest,
        List.append_assoc]
    rw [← List.drop_drop, hsplit, List.drop_left]
  · have hle := hbytes.length_le
    have hin := h.received
    rw [List.length_drop] at hle
    omega

/-- **An event of the reading half.** -/
theorem Inv.read {e : SocketReader.Event K.Choice} (h : s.Inv)
    (hs : step K minBufSize s (.read e) = some t) :
    t.Inv ∧ t.writer = s.writer ∧ Hands (IsFailure e) s t := by
  obtain ⟨left, hbegun, hreading⟩ := h.reading
  have hleft : ∀ m ∈ left, framer.IsFrame m := fun m hm =>
    h.begun_isFrame m (hbegun ▸ List.mem_append_right _ hm)
  simp only [step, Option.ite_none_right_eq_some] at hs
  obtain ⟨henabled, hs⟩ := hs
  obtain ⟨reader, hreader, rfl⟩ := Option.map_eq_some_iff.mp hs
  cases e with
  | asyncRead around =>
    obtain ⟨⟨hwaiting, hcalls⟩, hthrows⟩ := henabled
    have hreads := hreading.asyncRead hleft hwaiting hcalls hthrows hreader
    obtain ⟨hinv, hhands⟩ := h.reads h.received hbegun hreads
    exact ⟨hinv, rfl, hhands⟩
  | readBytes read bytes available around =>
    obtain ⟨hbytes, hthrows⟩ := henabled
    obtain ⟨hnext, hreceived⟩ := h.receive hbytes
    rw [hnext] at hreading
    have hreads := hreading.readBytes hleft hthrows hreader
    obtain ⟨hinv, hhands⟩ := h.reads hreceived hbegun hreads
    exact ⟨hinv, rfl, hhands⟩
  | readError read err =>
    obtain ⟨hinv, hhands⟩ := h.reads h.received hbegun (hreading.readError hreader)
    exact ⟨hinv, rfl, hhands⟩

/-! ## Whole runs -/

/-- The messages that are written in a run. -/
def writes (es : List (Event K)) : List MessageData :=
  WriteQueue.writes (es.filterMap fun
    | .write e => some e
    | .read _ => none)

theorem mem_writes {es : List (Event K)} {data : MessageData} :
    data ∈ writes es ↔ .write (.asyncWrite data) ∈ es := by
  simp only [writes, WriteQueue.writes, List.mem_filterMap]
  constructor
  · rintro ⟨e, ⟨link, hlink, he⟩, hdata⟩
    cases link with
    | read _ => cases he
    | write e' =>
      cases he
      cases e with
      | asyncWrite data' =>
        cases hdata
        exact hlink
      | runTask _ | transfer _ _ | writeDone _ _ => cases hdata
  · intro h
    exact ⟨_, ⟨_, h, rfl⟩, rfl⟩

/-- The writing half does its part of a run by itself. -/
theorem run_writer {es : List (Event K)} (hs : (machine K minBufSize).run s es = some t) :
    (WriteQueue.machine K.compressor).run s.writer (es.filterMap fun
      | .write e => some e
      | .read _ => none) = some t.writer := by
  induction es generalizing s with
  | nil =>
    cases hs
    rfl
  | cons e es ih =>
    obtain ⟨u, hu, hs⟩ := (Machine.run_cons _).mp hs
    cases e with
    | write e =>
      obtain ⟨writer, hwriter, rfl⟩ := Option.map_eq_some_iff.mp hu
      exact (Machine.run_cons _).mpr ⟨writer, hwriter, ih hs⟩
    | read e =>
      have hstep : step K minBufSize s (.read e) = some u := hu
      simp only [step, Option.ite_none_right_eq_some] at hstep
      obtain ⟨reader, -, rfl⟩ := Option.map_eq_some_iff.mp hstep.2
      have hrest := ih hs
      exact hrest

theorem inv_of_run {es : List (Event K)} (hframes : ∀ m ∈ writes es, framer.IsFrame m)
    (hs : (machine K minBufSize).run (machine K minBufSize).init es = some s) : s.Inv := by
  have hok : ∀ e ∈ es, ∀ data, e = .write (.asyncWrite data) → framer.IsFrame data := by
    rintro e he data rfl
    exact hframes data (mem_writes.mpr he)
  refine Machine.run_invariant_of_forall (I := Inv) ?_ hok (inv_init K minBufSize) hs
  intro s e t h he ht
  have hstep : step K minBufSize s e = some t := ht
  cases e with
  | write e => exact (h.write (fun data hdata => he data (hdata ▸ rfl)) hstep).1
  | read e => exact (h.read hstep).1

/-- What the users of the two ends see of each other. -/
structure Delivers (written : List MessageData) (s : StreamLink K) : Prop where
  /-- The messages are handed over in the order of the tasks of their writes, as they
  were, and none of them is left out before another. -/
  order : handed s.reader.calls <+: s.writer.ran.map Prod.snd
  /-- The tasks that have run or wait are those of the writes. -/
  messages : (s.writer.posted ++ s.writer.ran).Perm (written.zipIdx.map Prod.swap)
  /-- An error is one of the socket, not one of the parser. -/
  errors : ∀ read info, (read, .error info) ∈ s.reader.calls → IsSocketError info

/-- Two messages are written; the first is read, and then the connection is closed. -/
def closedAfterOne : List (Event (plainCodec fun _ => 0)) :=
  [.write (.asyncWrite [0xc0]), .write (.asyncWrite [0xc3]), .write (.runTask 0),
    .write (.transfer 0 1), .read (.asyncRead ⟨none, none, some 0, none⟩),
    .read (.readBytes 1 [0xc0] (some 0) ⟨none, none, some 0, none⟩),
    .read (.asyncRead ⟨none, none, some 0, none⟩), .read (.readError 2 .eof)]

/-- The call of a read handler that an event has led to. -/
def given (s t : StreamLink K) : Option ReadCall :=
  (t.reader.calls.drop s.reader.calls.length).head?.map Prod.snd

/-- Messages are put in by `async_write`. -/
def relay (K : StreamCodec) (minBufSize : Nat) :
    Relay (StreamLink K) (Event K) MessageData ReadCall where
  init := (machine K minBufSize).init
  put s data := step K minBufSize s (.write (.asyncWrite data))
  step s
    | .write (.asyncWrite _) => none
    | e => (step K minBufSize s e).map fun t => (t, given s t)

/-- Everything that is written and not handed over is among `held`. -/
structure Holds (s : StreamLink K) (held : Multiset MessageData) : Prop where
  inv : s.Inv
  messages : ((s.writer.posted ++ s.writer.ran).map Prod.snd : Multiset MessageData) ≤
    held + (handed s.reader.calls : Multiset MessageData)

theorem given_of_append {calls : List (Nat × ReadCall)}
    (h : t.reader.calls = s.reader.calls ++ calls) : given s t = calls.head?.map Prod.snd := by
  rw [given, h, List.drop_left]

/-- One message more is written. -/
theorem coe_posted_append (posted ran : List (Nat × MessageData)) (entry : Nat × MessageData) :
    ((posted ++ [entry] ++ ran).map Prod.snd : Multiset MessageData) =
      entry.2 ::ₘ ((posted ++ ran).map Prod.snd : Multiset MessageData) := by
  rw [Multiset.cons_coe, Multiset.coe_eq_coe]
  simp

/-- The other events of the writing half only move messages. -/
theorem coe_write {e : WriteQueue.Event} {writer : WriteQueue K.Sender}
    (he : ∀ data, e ≠ .asyncWrite data) (hs : s.writer.step K.compressor e = some writer) :
    ((writer.posted ++ writer.ran).map Prod.snd : Multiset MessageData) =
      ((s.writer.posted ++ s.writer.ran).map Prod.snd : Multiset MessageData) :=
  Multiset.coe_eq_coe.mpr ((WriteQueue.perm_step he hs).1.map Prod.snd)

/-- A message is handed over: it was inside. -/
theorem Holds.hands {held : Multiset MessageData} {read : Nat} {m : MessageData}
    (h : s.Holds held) (ht : t.Inv) (hwriter : t.writer = s.writer)
    (hcalls : t.reader.calls = s.reader.calls ++ [(read, .message m)])
    (hnext : handed s.reader.calls ++ [m] <+: s.writer.begun) :
    ∃ rest, held = m ::ₘ rest ∧ t.Holds rest := by
  obtain ⟨finished, hstate⟩ := h.inv.writer
  obtain ⟨more, hmore⟩ := hnext
  have hinside : (handed s.reader.calls : Multiset MessageData) + {m} ≤
      ((s.writer.posted ++ s.writer.ran).map Prod.snd : Multiset MessageData) := by
    rw [List.map_append, WriteQueue.map_ran hstate.ran, ← hmore]
    simp only [← Multiset.coe_add, Multiset.coe_singleton]
    refine le_trans ?_ (Multiset.le_add_left _ _)
    rw [add_assoc (_ + _)]
    exact Multiset.le_add_right _ _
  have hmem : {m} ≤ held := by
    have hall := hinside.trans h.messages
    rw [add_comm held] at hall
    exact Multiset.le_of_add_le_add_left hall
  obtain ⟨rest, rfl⟩ := Multiset.le_iff_exists_add.mp hmem
  refine ⟨rest, Multiset.singleton_add m rest, ht, ?_⟩
  have hmessages := h.messages
  rw [hwriter, hcalls, handed, List.filterMap_append]
  show _ ≤ rest + ((handed s.reader.calls ++ [m] : List MessageData) : Multiset MessageData)
  rw [← Multiset.coe_add, Multiset.coe_singleton]
  refine hmessages.trans (le_of_eq ?_)
  abel

theorem hasError_of_isSocketError {info : ErrorInfo} (h : IsSocketError info) :
    info.hasError = true := by
  rcases h with rfl | ⟨message, rfl⟩ <;> rfl

/-- A move of the relay is an event other than `async_write`. -/
theorem relay_step {e : Event K} {out : Option ReadCall}
    (h : (relay K minBufSize).step s e = some (t, out)) :
    (∀ data, e ≠ .write (.asyncWrite data)) ∧ step K minBufSize s e = some t ∧
      out = given s t := by
  have hmap : (∀ data, e ≠ .write (.asyncWrite data)) →
      (step K minBufSize s e).map (fun t => (t, given s t)) = some (t, out) →
      step K minBufSize s e = some t ∧ out = given s t := by
    intro _ hs
    obtain ⟨u, hu, heq⟩ := Option.map_eq_some_iff.mp hs
    cases heq
    exact ⟨hu, rfl⟩
  cases e with
  | read e =>
    have he : ∀ data, Event.read e ≠ .write (.asyncWrite data) := by rintro data ⟨⟩
    exact ⟨he, hmap he h⟩
  | write e =>
    cases e with
    | asyncWrite data => cases h
    | runTask _ | transfer _ _ | writeDone _ _ =>
      exact ⟨by rintro data ⟨⟩, hmap (by rintro data ⟨⟩) h⟩

/-- **What a move of the relay does** to the messages inside. -/
theorem Holds.step {held : Multiset MessageData} {e : Event K} {out : Option ReadCall}
    (h : s.Holds held) (hs : (relay K minBufSize).step s e = some (t, out)) :
    out = none ∧ t.Holds held ∨
      (∃ m rest, out = some (.message m) ∧ held = m ::ₘ rest ∧ t.Holds rest) ∨
      ∃ info, out = some (.error info) ∧ IsSocketError info ∧ t.Holds held := by
  obtain ⟨he, hstep, rfl⟩ := relay_step hs
  cases e with
  | write e =>
    obtain ⟨hinv, hreader⟩ := h.inv.write (fun data hdata => absurd (hdata ▸ rfl) (he data)) hstep
    obtain ⟨writer, hwriter, rfl⟩ := Option.map_eq_some_iff.mp hstep
    have hsame := coe_write (fun data hdata => he data (hdata ▸ rfl)) hwriter
    exact .inl ⟨given_of_append (List.append_nil _).symm, hinv, hsame ▸ h.messages⟩
  | read e =>
    obtain ⟨hinv, hwriter, hhands⟩ := h.inv.read hstep
    cases hhands with
    | silent calls =>
      refine .inl ⟨given_of_append (calls.trans (List.append_nil _).symm), hinv, ?_⟩
      rw [hwriter, calls]
      exact h.messages
    | @message read m calls next =>
      obtain ⟨rest, hheld, hrest⟩ := h.hands hinv hwriter calls next
      exact .inr (.inl ⟨m, rest, given_of_append calls, hheld, hrest⟩)
    | @error read info _ calls hinfo =>
      refine .inr (.inr ⟨info, given_of_append calls, hinfo, hinv, ?_⟩)
      have hsame : handed t.reader.calls = handed s.reader.calls := by
        rw [calls, handed, List.filterMap_append]
        exact List.append_nil _
      rw [hwriter, hsame]
      exact h.messages

/-- **The ledger of a connection**: what is handed over was written, each message once. -/
def ledger (K : StreamCodec) (minBufSize : Nat) :
    (relay K minBufSize).Ledger framer.IsFrame Relay.AnyMove (fun m call => call = .message m)
      (fun call => ∃ info, call = .error info ∧ info.hasError = true) where
  Holds := Holds
  init := ⟨inv_init K minBufSize, by simp [relay, machine, handed]⟩
  put := by
    intro s t held a h hok hs
    have hframe := hok a (Multiset.mem_cons_self a held)
    have hstep : StreamLink.step K minBufSize s (.write (.asyncWrite a)) = some t := hs
    obtain ⟨hinv, -⟩ := h.inv.write (by rintro data ⟨⟩; exact hframe) hstep
    cases hs
    refine ⟨hinv, ?_⟩
    have hcons := coe_posted_append s.writer.posted s.writer.ran (s.writer.calls, a)
    rw [Multiset.cons_add]
    exact (le_of_eq hcons).trans (Multiset.cons_le_cons a h.messages)
  silent := by
    intro s t held e h _ _ hs
    rcases h.step hs with ⟨-, ht⟩ | ⟨m, rest, hout, -⟩ | ⟨info, hout, -⟩
    · exact ht
    · cases hout
    · cases hout
  gives := by
    intro s t held e call h _ _ hs
    rcases h.step hs with ⟨hout, -⟩ | ⟨m, rest, hout, hheld, hrest⟩ | ⟨info, hout, hinfo, ht⟩
    · cases hout
    · exact .inl ⟨m, rest, hheld, Option.some.inj hout, hrest⟩
    · exact .inr ⟨⟨info, Option.some.inj hout, hasError_of_isSocketError hinfo⟩, ht⟩

end StreamLink

end MpRpc.Transport
