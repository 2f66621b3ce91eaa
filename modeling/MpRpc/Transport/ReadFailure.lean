import MpRpc.Transport.Reading

/-!
# ReadFailure — what is left in the buffer when a read fails

The bytes of a completed read are only counted while `available()` says that more
can be read at once; they are parsed after a later read. If that read fails, the
handler is told of the failure, and a message that has come completely stays in the
buffer. The stream may hold any bytes here, also such as are no messages.
-/

namespace MpRpc.Transport.StreamSocket

variable {F : Framer UInt8} {stream : Bytes}

/-- Every complete message in the bytes received so far was handed to a handler. -/
def AllDelivered (F : Framer UInt8) (stream : Bytes) (s : StreamSocket) : Prop :=
  ∀ xs rest, F.Cuts (received stream s) xs rest → xs <+: s.messages

/-- A read fails, and its handler is given the error. -/
def Event.Fails : Event → Prop
  | .readError .eof => True
  | .readError (.other _) => True
  | _ => False

/-- Whether everything was delivered shows in the buffer. -/
theorem Account.allDelivered_iff {s : StreamSocket} (h : Account F stream s) :
    AllDelivered F stream s ↔ ∀ n, F.parse s.parser.buffered ≠ .complete n := by
  constructor
  · intro hall n hp
    have hlen := (hall _ _ (h.cuts.concat hp)).length_le
    rw [List.length_append, List.length_singleton] at hlen
    omega
  · intro hno xs rest hcuts
    exact h.cuts.longest hno hcuts

/-- Only a read that waits can fail. -/
theorem waiting_of_fails {s t : StreamSocket} {minBufSize : Nat} {e : Event} (hfails : e.Fails)
    (he : StreamSocket.step F minBufSize s e = some t) : ∃ n, s.phase = .waiting n := by
  cases e with
  | asyncRead throws next => exact absurd hfails id
  | readBytes numBytes available throws next => exact absurd hfails id
  | readError err =>
    cases hp : s.phase with
    | idle => simp [StreamSocket.step, hp] at he
    | dropped => simp [StreamSocket.step, hp] at he
    | waiting n => exact ⟨n, rfl⟩

/-- **When a failed read drops nothing.** Whatever bytes a stream consists of, and
whatever the socket, the allocator and the handlers do: when a handler is given the error
of a failed read, every complete message received before was handed over, exactly if no
read fails directly after one that has left a complete message in the buffer. -/
theorem allDelivered_iff_no_failure_behind_message {minBufSize : Nat} {fresh : Nat → UInt8}
    {es : List Event} {u : StreamSocket}
    (hr : (machine F minBufSize fresh stream).run (machine F minBufSize fresh stream).init es =
      some u) :
    (machine F minBufSize fresh stream).EachStep
        (fun s e => e.Fails → AllDelivered F stream s) (machine F minBufSize fresh stream).init es ↔
      (machine F minBufSize fresh stream).EachTwo
        (fun s e f => LeavesMessage F s e → ¬ f.Fails)
        (machine F minBufSize fresh stream).init es := by
  have hJ : ∀ s e t, Accounted F stream s →
      (machine F minBufSize fresh stream).step s e = some t → Accounted F stream t :=
    fun s e t h he => (h.step he).1
  cases es with
  | nil => exact Iff.rfl
  | cons e es =>
    rw [Machine.eachStep_iff_eachTwo hJ ?_ (accounted_init minBufSize fresh) hr]
    · -- the first event cannot be a failure, because nothing waits yet
      obtain ⟨t, ht, -⟩ := (Machine.run_cons _).mp hr
      have hstep : StreamSocket.step F minBufSize (machine F minBufSize fresh stream).init e =
          some t := ht
      refine and_iff_right ?_
      intro hfails
      obtain ⟨n, hn⟩ := waiting_of_fails hfails hstep
      cases hn
    · intro s e t f v h he hf
      obtain ⟨ht, hwaiting⟩ := h.step he
      by_cases hfails : f.Fails
      · obtain ⟨n, hn⟩ := waiting_of_fails hfails hf
        have haccount := ht.account (by simp [hn])
        simp only [hfails, true_implies, not_true, imp_false]
        rw [haccount.allDelivered_iff, ← hwaiting n hn, not_exists]
      · simp [hfails]

/-- The object `nil` and the beginning of an array of two. -/
def nilAndArray : Bytes := [0xc0, 0x92]

/-- The connection ends in the middle of the array, after `nil` was handed over. -/
def endsInArray : List Event :=
  let next : Preparation := ⟨some 0, none⟩
  [.asyncRead none next, .readBytes 1 (some 1) none next, .readBytes 1 (some 0) none next,
    .asyncRead none next, .readError .eof]

theorem allDelivered_of_endsInArray :
    ((machine Msgpack.framer 16 (fun _ => 0) nilAndArray).run
        (machine Msgpack.framer 16 (fun _ => 0) nilAndArray).init endsInArray).map calls =
      some [(1, .message [0xc0]), (2, .error (.of .eof "connection closed"))] ∧
    (machine Msgpack.framer 16 (fun _ => 0) nilAndArray).EachStep
      (fun s e => e.Fails → AllDelivered Msgpack.framer nilAndArray s)
      (machine Msgpack.framer 16 (fun _ => 0) nilAndArray).init endsInArray := by
  have hrun : ((machine Msgpack.framer 16 (fun _ => 0) nilAndArray).run
      (machine Msgpack.framer 16 (fun _ => 0) nilAndArray).init endsInArray).map calls =
        some [(1, .message [0xc0]), (2, .error (.of .eof "connection closed"))] := by
    decide +kernel
  obtain ⟨u, hu, -⟩ := Option.map_eq_some_iff.mp hrun
  refine ⟨hrun, (allDelivered_iff_no_failure_behind_message hu).mpr ?_⟩
  -- the only failure comes after an `async_read`, which has looked into the buffer
  exact ⟨fun _ h => h, fun _ _ => ⟨fun _ h => h, fun _ _ => ⟨fun _ h => h, fun _ _ =>
    ⟨fun h _ => h, fun _ _ => trivial⟩⟩⟩⟩

/-- The connection is reset while the byte after `nil` is to be read. -/
def resetBehindNil : List Event :=
  let next : Preparation := ⟨some 0, none⟩
  [.asyncRead none next, .readBytes 1 (some 1) none next,
    .readError (.other "Connection reset by peer")]

/-- `nil` was received and its handler is told of the reset only. -/
theorem received_message_is_dropped :
    ((machine Msgpack.framer 16 (fun _ => 0) nilAndArray).run
        (machine Msgpack.framer 16 (fun _ => 0) nilAndArray).init resetBehindNil).map calls =
      some [(1, .error (.of .failedToRead "Connection reset by peer"))] ∧
    ¬ (machine Msgpack.framer 16 (fun _ => 0) nilAndArray).EachStep
      (fun s e => e.Fails → AllDelivered Msgpack.framer nilAndArray s)
      (machine Msgpack.framer 16 (fun _ => 0) nilAndArray).init resetBehindNil := by
  refine ⟨by decide +kernel, ?_⟩
  intro hall
  have hbefore : ((machine Msgpack.framer 16 (fun _ => 0) nilAndArray).run
      (machine Msgpack.framer 16 (fun _ => 0) nilAndArray).init (resetBehindNil.take 2)).map
        (fun s => (received nilAndArray s, s.messages)) = some ([0xc0], []) := by
    decide +kernel
  obtain ⟨s, hs, hseen⟩ := Option.map_eq_some_iff.mp hbefore
  obtain ⟨hreceived, hmessages⟩ := Prod.mk.inj hseen
  obtain ⟨t, ht, hr⟩ := (Machine.run_cons _).mp hs
  obtain ⟨v, hv, hr⟩ := (Machine.run_cons _).mp hr
  cases hr
  have hdelivered := ((hall.2 t ht).2 s hv).1 trivial
  have hcut : Msgpack.framer.Cuts [0xc0] [[0xc0]] [] :=
    .cons (n := 1) (by decide +kernel) (.nil _)
  rw [AllDelivered, hreceived, hmessages] at hdelivered
  exact absurd (hdelivered _ _ hcut) (by decide)

end MpRpc.Transport.StreamSocket
