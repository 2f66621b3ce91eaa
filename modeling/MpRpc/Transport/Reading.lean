import MpRpc.Msgpack.Parse
import MpRpc.Transport.StreamSocket

/-!
# Reading — no message is lost, repeated, reordered or split

The bytes that a socket has given are the messages handed over, one complete frame
after the other, and the bytes that the parser has buffered (`Account`), whatever the
bytes are. Each function of the reading half keeps that account; only a read whose
handler was dropped may lose bytes, and nothing is read after it. For a stream that is
a sequence of frames and the beginning of another one, the account says that the
messages handed over are its first frames (`Cut`).
-/

namespace MpRpc.Transport.StreamSocket

variable {F : Framer UInt8} {stream : Bytes} {xs : List MessageData} {tail : Bytes}

/-! ## Calls of the handler -/

@[simp] theorem messages_call_message (s : StreamSocket) (data : MessageData) :
    (s.call (.message data)).messages = s.messages ++ [data] := by
  simp [messages, call]

@[simp] theorem messages_call_error (s : StreamSocket) (info : ErrorInfo) :
    (s.call (.error info)).messages = s.messages := by
  simp [messages, call]

/-- However the handler behaves, it is handed the message once. -/
theorem deliver_spec (s : StreamSocket) (message : MessageData) (throws : Option ErrorInfo) :
    (s.deliver message throws).messages = s.messages ++ [message] ∧
      (s.deliver message throws).phase = .idle ∧
      (s.deliver message throws).parser = s.parser ∧
      (s.deliver message throws).incoming = s.incoming := by
  cases throws with
  | none => exact ⟨messages_call_message s message, rfl, rfl, rfl⟩
  | some info =>
    refine ⟨?_, rfl, rfl, rfl⟩
    rw [deliver, messages_call_error, messages_call_message]

/-! ## The functions of the reading half -/

/-- **`parse_next` on a complete frame** hands it over and keeps what is behind it. -/
theorem parseNext_of_complete {s : StreamSocket} {numBytes n : Nat}
    (hwf : (s.parser.consumed numBytes).Wf)
    (hp : F.parse (s.parser.consumed numBytes).buffered = .complete n)
    (throws : Option ErrorInfo) :
    ∃ t, s.parseNext F numBytes throws = (true, t) ∧ t.phase = .idle ∧ t.parser.Wf ∧
      t.parser.buffered = (s.parser.consumed numBytes).buffered.drop n ∧
      t.messages = s.messages ++ [(s.parser.consumed numBytes).buffered.take n] ∧
      t.incoming = s.incoming := by
  have hle := F.complete_le hp
  rw [hwf.length_buffered] at hle
  -- the parser that `get` is called on has the found length in `parsed_buf_size_`
  let found : MsgpackStreamingParser := { s.parser.consumed numBytes with parsedBufSize := n }
  have hfound : found.Wf := ⟨hwf.buffer, hwf.consumed⟩
  obtain ⟨hmessage, hwf', hbuffered⟩ := MsgpackStreamingParser.get_spec hfound hle
  obtain ⟨hmsgs, hidle, hparser, hincoming⟩ :=
    deliver_spec { s with parser := found.get.2 } found.get.1 throws
  simp only [StreamSocket.parseNext, MsgpackStreamingParser.parseNext, hp]
  refine ⟨_, rfl, hidle, ?_, ?_, ?_, hincoming⟩
  · rw [hparser]
    exact hwf'
  · rw [hparser]
    exact hbuffered
  · rw [hmsgs, hmessage]
    rfl

theorem parseNext_of_incomplete {s : StreamSocket} {numBytes : Nat}
    (hp : F.parse (s.parser.consumed numBytes).buffered = .incomplete)
    (throws : Option ErrorInfo) :
    s.parseNext F numBytes throws =
      (false, { s with parser := s.parser.consumed numBytes }) := by
  simp only [StreamSocket.parseNext, MsgpackStreamingParser.parseNext, hp]

theorem parseNext_of_error {s : StreamSocket} {numBytes : Nat}
    (hp : F.parse (s.parser.consumed numBytes).buffered = .error)
    (throws : Option ErrorInfo) :
    s.parseNext F numBytes throws =
      (true, ({ s with parser := s.parser.consumed numBytes }).call
        (.error MsgpackStreamingParser.parseError)) := by
  simp only [StreamSocket.parseNext, MsgpackStreamingParser.parseNext, hp]

/-- **What `do_read_bytes` does**: it drops the handler, or waits with room behind the
buffered bytes. -/
theorem doReadBytes_spec {s : StreamSocket} (hwf : s.parser.Wf) (minBufSize : Nat)
    (next : Preparation) :
    s.doReadBytes minBufSize next = { s with phase := .dropped } ∨
      ∃ parser bufSize, s.doReadBytes minBufSize next =
          { s with parser := parser, phase := .waiting bufSize } ∧
        parser.Wf ∧ parser.buffered = s.parser.buffered ∧
        parser.consumedBufSize + bufSize = parser.buffer.size := by
  rw [StreamSocket.doReadBytes]
  cases next.available with
  | none => exact .inl rfl
  | some available =>
    simp only
    cases hp : s.parser.prepareBuffer (max minBufSize available) next.allocation with
    | none => exact .inl rfl
    | some parser => exact .inr ⟨parser, _, rfl, MsgpackStreamingParser.prepareBuffer_spec hwf hp⟩

/-- The bytes that a read brings stand behind the buffered ones. -/
theorem receive_spec {s : StreamSocket} {numBytes : Nat} (hwf : s.parser.Wf)
    (hroom : s.parser.consumedBufSize + numBytes ≤ s.parser.buffer.size)
    (hin : numBytes ≤ s.incoming.length) :
    ((s.receive numBytes).parser.consumed numBytes).Wf ∧
      ((s.receive numBytes).parser.consumed numBytes).buffered =
        s.parser.buffered ++ s.incoming.take numBytes := by
  have hlen : (s.incoming.take numBytes).length = numBytes := by
    rw [List.length_take, Nat.min_eq_left hin]
  have hspec := MsgpackStreamingParser.received_spec hwf (s.incoming.take numBytes) (by omega)
  rw [hlen] at hspec
  exact hspec

/-! ## The account of the received bytes -/

/-- The bytes that the socket has given so far. -/
def received (stream : Bytes) (s : StreamSocket) : Bytes :=
  stream.take (stream.length - s.incoming.length)

/-- A read completes while `available()` is not zero, and what it brings makes a
message at the front of the buffer complete. -/
def LeavesMessage (F : Framer UInt8) (s : StreamSocket) : Event → Prop
  | .readBytes numBytes (some (_ + 1)) _ _ =>
      ∃ n, F.parse (s.parser.buffered ++ s.incoming.take numBytes) = .complete n
  | _ => False

/-- The received bytes are the messages handed over, one complete frame after the
other, and the buffered bytes. -/
structure Account (F : Framer UInt8) (stream : Bytes) (s : StreamSocket) : Prop where
  wf : s.parser.Wf
  split : received stream s ++ s.incoming = stream
  cuts : F.Cuts (received stream s) s.messages s.parser.buffered

/-- Between two events the account is kept, unless the handler was dropped, and the
buffer has the room that the socket was told. What was handed over is always cut off the
received bytes. -/
structure Accounted (F : Framer UInt8) (stream : Bytes) (s : StreamSocket) : Prop where
  split : received stream s ++ s.incoming = stream
  handed : ∃ rest, F.Cuts (received stream s) s.messages rest
  account : s.phase ≠ .dropped → Account F stream s
  room : ∀ n, s.phase = .waiting n → s.parser.consumedBufSize + n ≤ s.parser.buffer.size

theorem Account.dropped {s : StreamSocket} (h : Account F stream s)
    (parser : MsgpackStreamingParser) :
    Accounted F stream { s with parser := parser, phase := .dropped } := by
  refine ⟨h.split, ⟨_, h.cuts⟩, fun hne => absurd rfl hne, ?_⟩
  intro n hn
  cases hn

theorem Account.accounted_of_idle {s : StreamSocket} (h : Account F stream s)
    (hidle : s.phase = .idle) : Accounted F stream s := by
  refine ⟨h.split, ⟨_, h.cuts⟩, fun _ => h, ?_⟩
  intro n hn
  cases hidle.symm.trans hn

theorem Account.call_error {s : StreamSocket} (h : Account F stream s) (info : ErrorInfo) :
    Account F stream (s.call (.error info)) :=
  ⟨h.wf, h.split, by rw [messages_call_error]; exact h.cuts⟩

/-- Received bytes go from the stream into the buffer. -/
theorem Account.receive {s : StreamSocket} (h : Account F stream s) {numBytes : Nat}
    (hroom : s.parser.consumedBufSize + numBytes ≤ s.parser.buffer.size)
    (hin : numBytes ≤ s.incoming.length) :
    Account F stream { s.receive numBytes with
      parser := (s.receive numBytes).parser.consumed numBytes } := by
  obtain ⟨hwf, hbuffered⟩ := receive_spec h.wf hroom hin
  have hreceived : received stream { s.receive numBytes with
      parser := (s.receive numBytes).parser.consumed numBytes } =
        received stream s ++ s.incoming.take numBytes := by
    have hsplit := congrArg List.length h.split
    rw [List.length_append] at hsplit
    show stream.take (stream.length - (s.incoming.drop numBytes).length) = _
    calc stream.take (stream.length - (s.incoming.drop numBytes).length)
        = (received stream s ++ s.incoming).take ((received stream s).length + numBytes) := by
          rw [h.split, List.length_drop]
          congr 1
          omega
      _ = received stream s ++ s.incoming.take numBytes := List.take_length_add_append numBytes
  refine ⟨hwf, ?_, ?_⟩
  · rw [hreceived, List.append_assoc]
    exact (congrArg _ (List.take_append_drop numBytes s.incoming)).trans h.split
  · rw [hreceived]
    show F.Cuts _ s.messages ((s.receive numBytes).parser.consumed numBytes).buffered
    rw [hbuffered]
    exact h.cuts.append _

/-- `parse_next` keeps the account, and says so if no message is complete. -/
theorem Account.parseNext {s : StreamSocket} {numBytes : Nat}
    (h : Account F stream { s with parser := s.parser.consumed numBytes })
    (throws : Option ErrorInfo) :
    (∃ t, s.parseNext F numBytes throws = (true, t) ∧ Account F stream t ∧ t.phase = .idle) ∨
      s.parseNext F numBytes throws = (false, { s with parser := s.parser.consumed numBytes }) ∧
        F.parse (s.parser.consumed numBytes).buffered = .incomplete := by
  cases hp : F.parse (s.parser.consumed numBytes).buffered with
  | incomplete => exact .inr ⟨parseNext_of_incomplete hp throws, rfl⟩
  | error => exact .inl ⟨_, parseNext_of_error hp throws, h.call_error _, rfl⟩
  | complete n =>
    left
    obtain ⟨t, ht, hidle, hwf, hbuffered, hmsgs, hincoming⟩ := parseNext_of_complete h.wf hp throws
    have hreceived : received stream t =
        received stream { s with parser := s.parser.consumed numBytes } := by
      rw [received, hincoming]
      rfl
    refine ⟨t, ht, ⟨hwf, ?_, ?_⟩, hidle⟩
    · rw [hreceived, hincoming]
      exact h.split
    · rw [hreceived, hmsgs, hbuffered]
      exact h.cuts.concat hp

/-- `do_read_bytes` keeps the account and the buffered bytes. -/
theorem Account.doReadBytes {s : StreamSocket} (h : Account F stream s) (minBufSize : Nat)
    (next : Preparation) :
    Accounted F stream (s.doReadBytes minBufSize next) ∧
      ∀ n, (s.doReadBytes minBufSize next).phase = .waiting n →
        (s.doReadBytes minBufSize next).parser.buffered = s.parser.buffered := by
  rcases doReadBytes_spec h.wf minBufSize next with
    hs | ⟨parser, bufSize, hs, hwf, hbuffered, hroom⟩
  · rw [hs]
    exact ⟨h.dropped s.parser, fun n hn => by cases hn⟩
  · rw [hs]
    refine ⟨⟨h.split, ⟨_, h.cuts⟩, fun _ => ⟨hwf, h.split, ?_⟩, ?_⟩, fun n _ => hbuffered⟩
    · rw [hbuffered]
      exact h.cuts
    · intro n hn
      cases hn
      exact Nat.le_of_eq hroom

/-- After `parse_next` and then `do_read_bytes` a read waits with no complete message. -/
theorem Account.parseNext_doReadBytes {s t : StreamSocket} {numBytes : Nat}
    (h : Account F stream { s with parser := s.parser.consumed numBytes }) {minBufSize : Nat}
    {throws : Option ErrorInfo} {next : Preparation}
    (ht : (match s.parseNext F numBytes throws with
      | (true, s) => s
      | (false, s) => s.doReadBytes minBufSize next) = t) :
    Accounted F stream t ∧
      ∀ n, t.phase = .waiting n → F.parse t.parser.buffered = .incomplete := by
  rcases h.parseNext throws with ⟨u, hu, haccount, hidle⟩ | ⟨hu, hinc⟩
  · rw [hu] at ht
    subst ht
    refine ⟨haccount.accounted_of_idle hidle, ?_⟩
    intro n hn
    cases hidle.symm.trans hn
  · rw [hu] at ht
    obtain ⟨haccounted, hsame⟩ := h.doReadBytes minBufSize next
    subst ht
    refine ⟨haccounted, ?_⟩
    intro n hn
    rw [hsame n hn]
    exact hinc

/-- **One event keeps the account**, and a read that waits after it has a complete
message in its buffer exactly if the event has left it there. -/
theorem Accounted.step {s t : StreamSocket} {minBufSize : Nat} {e : Event}
    (h : Accounted F stream s) (he : StreamSocket.step F minBufSize s e = some t) :
    Accounted F stream t ∧
      ∀ n, t.phase = .waiting n →
        ((∃ k, F.parse t.parser.buffered = .complete k) ↔ LeavesMessage F s e) := by
  cases e with
  | asyncRead throws next =>
    cases hp : s.phase with
    | waiting bufSize => simp [StreamSocket.step, hp] at he
    | dropped => simp [StreamSocket.step, hp] at he
    | idle =>
      simp only [StreamSocket.step, hp, Option.some.injEq] at he
      have haccount : Account F stream s := h.account (by simp [hp])
      have hstart : Account F stream
          { s with phase := .idle, reads := s.reads + 1, parser := s.parser.consumed 0 } :=
        ⟨haccount.wf, haccount.split, haccount.cuts⟩
      obtain ⟨haccounted, hinc⟩ := hstart.parseNext_doReadBytes he
      refine ⟨haccounted, ?_⟩
      intro n hn
      simp [hinc n hn, LeavesMessage]
  | readBytes numBytes available throws next =>
    cases hp : s.phase with
    | idle => simp [StreamSocket.step, hp] at he
    | dropped => simp [StreamSocket.step, hp] at he
    | waiting bufSize =>
      simp only [StreamSocket.step, hp, Option.ite_none_right_eq_some, Option.some.injEq] at he
      obtain ⟨⟨-, hle, hin⟩, ht⟩ := he
      have haccount : Account F stream s := h.account (by simp [hp])
      have hroom : s.parser.consumedBufSize + numBytes ≤ s.parser.buffer.size :=
        Nat.le_trans (by omega) (h.room bufSize hp)
      have hreceive := haccount.receive hroom hin
      cases available with
      | none =>
        subst ht
        exact ⟨hreceive.dropped (s.receive numBytes).parser, fun n hn => by cases hn⟩
      | some available =>
        cases available with
        | zero =>
          obtain ⟨haccounted, hinc⟩ := hreceive.parseNext_doReadBytes ht
          refine ⟨haccounted, ?_⟩
          intro n hn
          simp [hinc n hn, LeavesMessage]
        | succ available =>
          subst ht
          obtain ⟨haccounted, hsame⟩ := hreceive.doReadBytes minBufSize next
          refine ⟨haccounted, ?_⟩
          intro n hn
          show (∃ k, F.parse (StreamSocket.doReadBytes minBufSize _ next).parser.buffered =
            .complete k) ↔ _
          rw [hsame n hn]
          show (∃ k, F.parse ((s.receive numBytes).parser.consumed numBytes).buffered =
            .complete k) ↔ _
          rw [(receive_spec haccount.wf hroom hin).2]
          exact Iff.rfl
  | readError err =>
    cases hp : s.phase with
    | idle => simp [StreamSocket.step, hp] at he
    | dropped => simp [StreamSocket.step, hp] at he
    | waiting bufSize =>
      simp only [StreamSocket.step, hp, Option.some.injEq] at he
      have haccount : Account F stream s := h.account (by simp [hp])
      subst he
      cases err with
      | operationAborted => exact ⟨haccount.dropped s.parser, fun n hn => by cases hn⟩
      | eof => exact ⟨(haccount.call_error _).accounted_of_idle rfl, fun n hn => by cases hn⟩
      | other message =>
        exact ⟨(haccount.call_error _).accounted_of_idle rfl, fun n hn => by cases hn⟩

theorem accounted_init (minBufSize : Nat) (fresh : Nat → UInt8) :
    Accounted F stream (machine F minBufSize fresh stream).init := by
  have hreceived : received stream (machine F minBufSize fresh stream).init = [] := by
    simp [received, machine]
  refine Account.accounted_of_idle ⟨⟨Nat.zero_le _, Nat.le_refl 0⟩, ?_, ?_⟩ rfl
  · rw [hreceived]
    rfl
  · rw [hreceived]
    exact .nil _

theorem accounted_of_run {minBufSize : Nat} {fresh : Nat → UInt8} {es : List Event}
    {s : StreamSocket}
    (hr : (machine F minBufSize fresh stream).run (machine F minBufSize fresh stream).init es =
      some s) : Accounted F stream s :=
  Machine.run_invariant (fun _ _ _ h he => (h.step he).1) (accounted_init minBufSize fresh) hr

/-! ## A stream of frames -/

/-- The stream of the frames `xs` and the beginning `tail` of another one is cut
at a frame: `ys` is buffered or still to come, the frames before it are handed
over. -/
structure Cut (xs : List MessageData) (tail : Bytes) (s : StreamSocket) : Prop where
  wf : s.parser.Wf
  cut : ∃ ys, xs = s.messages ++ ys ∧ s.parser.buffered ++ s.incoming = ys.flatten ++ tail

/-- Between two events the stream is cut, unless the read was dropped, and the
buffer has the room that the socket was told. -/
structure Inv (xs : List MessageData) (tail : Bytes) (s : StreamSocket) : Prop where
  handed : s.messages <+: xs
  idle : s.phase = .idle → Cut xs tail s
  waiting : ∀ n, s.phase = .waiting n →
    Cut xs tail s ∧ s.parser.consumedBufSize + n ≤ s.parser.buffer.size

/-- In a stream of frames the account is a cut. -/
theorem Account.cut (hF : F.Stream xs tail) {s : StreamSocket}
    (h : Account F (xs.flatten ++ tail) s) : Cut xs tail s :=
  ⟨h.wf, hF.of_cuts h.split h.cuts⟩

theorem Accounted.inv (hF : F.Stream xs tail) {s : StreamSocket}
    (h : Accounted F (xs.flatten ++ tail) s) : Inv xs tail s := by
  refine ⟨?_, ?_, ?_⟩
  · obtain ⟨rest, hcuts⟩ := h.handed
    obtain ⟨ys, hxs, -⟩ := hF.of_cuts h.split hcuts
    exact ⟨ys, hxs.symm⟩
  · intro hidle
    exact (h.account (by simp [hidle])).cut hF
  · intro n hn
    exact ⟨(h.account (by simp [hn])).cut hF, h.room n hn⟩

/-- A read that waits after bytes for which `available()` was zero has no complete frame in
the parser's buffer. -/
theorem Accounted.incomplete_of_waiting (hF : F.Stream xs tail) {s t : StreamSocket}
    {minBufSize numBytes n : Nat} {throws : Option ErrorInfo} {next : Preparation}
    (h : Accounted F (xs.flatten ++ tail) s)
    (ht : StreamSocket.step F minBufSize s (.readBytes numBytes (some 0) throws next) = some t)
    (hn : t.phase = .waiting n) : F.parse t.parser.buffered = .incomplete := by
  obtain ⟨ht', hleaves⟩ := h.step ht
  obtain ⟨⟨-, ys, hxs, hcut⟩, -⟩ := (ht'.inv hF).waiting n hn
  have hys : F.Stream ys tail := (hxs ▸ hF).of_append
  cases hp : F.parse t.parser.buffered with
  | incomplete => rfl
  | error => exact absurd hp (hys.parse_ne_error hcut)
  | complete k => exact absurd ((hleaves n hn).mp ⟨k, hp⟩) id

/-! ## Every run -/

/-- **Messages arrive whole, once and in order.** Whatever the socket, the
allocator and the handlers do, the messages handed over are the first frames of
the stream; and a read that is left waiting after bytes for which `available()`
was zero has no complete frame in the parser's buffer. -/
theorem messages_prefix_of_stream (hF : F.Stream xs tail) {minBufSize : Nat}
    {fresh : Nat → UInt8} {es : List Event} {s : StreamSocket}
    (hr : (machine F minBufSize fresh (xs.flatten ++ tail)).run
      (machine F minBufSize fresh (xs.flatten ++ tail)).init es = some s) :
    s.messages <+: xs ∧
      ∀ numBytes throws next t n,
        (machine F minBufSize fresh (xs.flatten ++ tail)).step s
          (.readBytes numBytes (some 0) throws next) = some t →
        t.phase = .waiting n → F.parse t.parser.buffered = .incomplete := by
  have haccounted := accounted_of_run hr
  refine ⟨(haccounted.inv hF).handed, ?_⟩
  intro numBytes throws next t n ht hn
  exact haccounted.incomplete_of_waiting hF ht hn

/-- The objects `nil` and `"ab"`, and the beginning of an array of two. -/
def twoObjects : List MessageData :=
  [Msgpack.pack .nil, Msgpack.pack (.str (ascii "ab"))]

/-- Two reads; the first chunk ends inside the second object and more is
available, the second chunk ends there as well. -/
def cutInside : List Event :=
  let next : Preparation := ⟨some 0, none⟩
  [.asyncRead none next, .readBytes 2 (some 1) none next, .readBytes 1 (some 0) none next,
    .asyncRead none next, .readBytes 2 (some 0) none next]

theorem messages_prefix_of_stream_twoObjects :
    ∃ s, (machine Msgpack.framer 16 (fun _ => 0) (twoObjects.flatten ++ [0x92])).run
        (machine Msgpack.framer 16 (fun _ => 0) (twoObjects.flatten ++ [0x92])).init cutInside =
          some s ∧
      s.messages = twoObjects ∧ s.messages <+: twoObjects := by
  have hF : Msgpack.framer.Stream twoObjects [0x92] := by
    refine ⟨?_, rfl⟩
    intro x hx
    rcases List.mem_cons.mp hx with rfl | hx
    · exact Msgpack.isFrame_pack Msgpack.Object.packable_nil
    · rw [List.mem_singleton.mp hx]
      exact Msgpack.isFrame_pack (by decide)
  have hrun : ((machine Msgpack.framer 16 (fun _ => 0) (twoObjects.flatten ++ [0x92])).run
      (machine Msgpack.framer 16 (fun _ => 0) (twoObjects.flatten ++ [0x92])).init cutInside).map
        messages = some twoObjects := by
    decide +kernel
  obtain ⟨s, hs, hmessages⟩ := Option.map_eq_some_iff.mp hrun
  exact ⟨s, hs, hmessages, (messages_prefix_of_stream hF hs).1⟩

/-- **Nothing is left behind**: when the whole stream has been received and a read
is left waiting after bytes for which `available()` was zero, every frame has
been handed over. -/
theorem messages_eq_of_received (hF : F.Stream xs tail) {s t : StreamSocket}
    {minBufSize numBytes n : Nat} {throws : Option ErrorInfo} {next : Preparation}
    (h : Accounted F (xs.flatten ++ tail) s)
    (ht : StreamSocket.step F minBufSize s (.readBytes numBytes (some 0) throws next) = some t)
    (hn : t.phase = .waiting n) (hin : t.incoming = []) : t.messages = xs := by
  have hinc := h.incomplete_of_waiting hF ht hn
  obtain ⟨⟨-, ys, hxs, hcut⟩, -⟩ := ((h.step ht).1.inv hF).waiting n hn
  have hys : F.Stream ys tail := (hxs ▸ hF).of_append
  rw [hin, List.append_nil] at hcut
  rw [hcut, hys.parse] at hinc
  cases ys with
  | nil => rw [hxs, List.append_nil]
  | cons y ys => cases hinc

end MpRpc.Transport.StreamSocket
