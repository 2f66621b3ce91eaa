import MpRpc.Relay.Tally
import MpRpc.Transport.StreamLink

/-!
# StreamTally — a connection on which nothing fails keeps nothing back

`StreamLink` says that what is handed over was written. Here it is the other way round:
while no write and no read fails and no handler is dropped, everything that is written is
under way or handed over, and when all bytes have been received and the reading half waits
for more, every message has been handed over. The parser must not ask for bytes while it
could hand over a message (`StreamCodec.Thorough`); `zstd_streaming_parser` does so unless
the decoder gives out a message only with the last byte of its frame.
-/

namespace MpRpc.Transport.StreamLink

open Msgpack (framer)

variable {K : StreamCodec} {minBufSize : Nat} {s t : StreamLink K}

/-- An exception has left the reading half, and with it the handler of the last read. -/
def Dropped (s : StreamLink K) : Prop :=
  s.reader.waiting = [] ∧ s.reader.calls.length < s.reader.reads

instance (s : StreamLink K) : Decidable s.Dropped :=
  inferInstanceAs (Decidable (_ ∧ _))

/-- The socket does not fail, and `available()` after a read counts bytes that are there. -/
def Truthful (s : StreamLink K) : SocketReader.Event K.Choice → Prop
  | .asyncRead _ => True
  | .readBytes _ bytes available _ =>
      ∀ n ∈ available, 0 < n → s.received + bytes.length < s.writer.wire.length
  | .readError _ _ => False

instance (s : StreamLink K) : DecidablePred s.Truthful
  | .asyncRead _ => .isTrue trivial
  | .readBytes _ bytes available _ =>
      inferInstanceAs
        (Decidable (∀ n ∈ available, 0 < n → s.received + bytes.length < s.writer.wire.length))
  | .readError _ _ => .isFalse id

/-- Nothing fails in this event. -/
def Undisturbed (minBufSize : Nat) (s : StreamLink K) : Event K → Prop
  | .write e => e.Succeeds
  | .read e => s.Truthful e ∧ ∀ t ∈ step K minBufSize s (.read e), ¬ t.Dropped

instance (minBufSize : Nat) (s : StreamLink K) : DecidablePred (s.Undisturbed minBufSize)
  | .write e => inferInstanceAs (Decidable e.Succeeds)
  | .read e =>
      inferInstanceAs
        (Decidable (s.Truthful e ∧ ∀ t ∈ step K minBufSize s (.read e), ¬ t.Dropped))

/-- Everything is written and received, and the reading half waits for more. -/
structure Settled (s : StreamLink K) : Prop where
  posted : s.writer.posted = []
  queue : s.writer.writingQueue = []
  received : s.received = s.writer.wire.length
  waiting : s.reader.waiting ≠ []

instance (s : StreamLink K) : Decidable s.Settled :=
  decidable_of_iff (s.writer.posted = [] ∧ s.writer.writingQueue = [] ∧
      s.received = s.writer.wire.length ∧ s.reader.waiting ≠ [])
    ⟨fun ⟨posted, queue, received, waiting⟩ => ⟨posted, queue, received, waiting⟩,
      fun h => ⟨h.posted, h.queue, h.received, h.waiting⟩⟩

/-! ## The reading half -/

section Reader

variable {r u : SocketReader K.Reader} {left : List MessageData}

theorem waiting_deliver (r : SocketReader K.Reader) (read : Nat) (message : MessageData)
    (throws : Option ErrorInfo) : (r.deliver read message throws).waiting = r.waiting := by
  cases throws <;> rfl

/-- **`parse_next` at the end of the stream** leaves the read waiting only if there is no
message left. -/
theorem AtHand.starved (hK : K.Thorough) (h : AtHand r) {numBytes : Nat}
    (hp : K.Position (K.parser.consumed r.parser numBytes) [] left)
    (hleft : ∀ m ∈ left, framer.IsFrame m) {around : SocketReader.Surroundings K.Choice}
    (hu : (r.parseOrRead K.parser minBufSize r.reads numBytes around).waiting ≠ []) :
    left = [] := by
  have hstarved : (K.parser.parseNext r.parser numBytes around.parsing).1 = some (.ok false) →
      left = [] := hK.starved hp hleft
  unfold SocketReader.parseOrRead SocketReader.parseNext at hu
  generalize K.parser.parseNext r.parser numBytes around.parsing = out at hstarved hu
  obtain ⟨result, q⟩ := out
  cases result with
  | none => exact absurd h.waiting hu
  | some result =>
    cases result with
    | error info => exact absurd h.waiting hu
    | ok found =>
      cases found with
      | false => exact hstarved rfl
      | true =>
        simp only at hu
        generalize K.parser.get q around.parsing = got at hu
        obtain ⟨message, q'⟩ := got
        cases message with
        | none => exact absurd h.waiting hu
        | some message =>
          cases message with
          | error info => exact absurd h.waiting hu
          | ok message =>
            rw [waiting_deliver] at hu
            exact absurd h.waiting hu

/-- **A read begins** at the end of the stream. -/
theorem Reading.asyncRead_starved (hK : K.Thorough) (h : Reading r [] left)
    (hleft : ∀ m ∈ left, framer.IsFrame m) (hwaiting : r.waiting = [])
    (hcalls : r.calls.length = r.reads) {around : SocketReader.Surroundings K.Choice}
    (hs : r.step K.parser minBufSize (.asyncRead around) = some u) (hu : u.waiting ≠ []) :
    left = [] := by
  cases hs
  cases h with
  | waits waiting _ _ _ =>
    rw [hwaiting] at waiting
    cases waiting
  | dropped _ calls => omega
  | idle _ _ position =>
    have hat : AtHand ({ r with reads := r.reads + 1 } : SocketReader K.Reader) :=
      ⟨hwaiting, by show r.calls.length + 1 = r.reads + 1; omega⟩
    exact hat.starved hK (K.position_consumed_zero position) hleft hu

/-- **The last bytes are received**, and `available()` says so. -/
theorem Reading.readBytes_starved (hK : K.Thorough) {bytes : Bytes}
    (h : Reading r (bytes ++ []) left) (hleft : ∀ m ∈ left, framer.IsFrame m) {read : Nat}
    {available : Option Nat} (havailable : ∀ n ∈ available, n = 0)
    {around : SocketReader.Surroundings K.Choice}
    (hs : r.step K.parser minBufSize (.readBytes read bytes available around) = some u)
    (hu : u.waiting ≠ []) : left = [] := by
  cases h with
  | idle waiting _ _ => simp [SocketReader.step, waiting] at hs
  | dropped waiting _ => simp [SocketReader.step, waiting] at hs
  | @waits bufSize waiting calls room position =>
    cases hfind : r.waiting.find? (·.1 = read) with
    | none => simp [SocketReader.step, hfind] at hs
    | some entry =>
      obtain ⟨rfl, rfl⟩ := find_waiting waiting hfind
      simp only [SocketReader.step, hfind, Option.ite_none_right_eq_some,
        Option.some.injEq] at hs
      obtain ⟨hle, rfl⟩ := hs
      have hat : AtHand ({ r.complete r.reads with parser := K.parser.store r.parser bytes } :
          SocketReader K.Reader) := ⟨complete_waiting waiting, calls⟩
      cases available with
      | none => exact absurd hat.waiting hu
      | some n =>
        cases havailable n rfl
        exact hat.starved hK (K.position_receive position room hle) hleft hu

end Reader

/-! ## The two halves -/

/-- Nothing has failed so far. -/
structure Full (s : StreamLink K) : Prop where
  inv : s.Inv
  flow : ∃ finished, s.writer.Flow K.compressor finished
  alive : ¬ s.Dropped
  /-- A read that waits although everything was received has nothing to hand over. -/
  starved : s.reader.waiting ≠ [] → s.received = s.stream.length →
    handed s.reader.calls = s.writer.begun

theorem full_init (K : StreamCodec) (minBufSize : Nat) : (machine K minBufSize).init.Full where
  inv := inv_init K minBufSize
  flow := ⟨[], (WriteQueue.settled_init K.compressor).flow rfl⟩
  alive h := Nat.lt_irrefl 0 h.2
  starved h := absurd rfl h

/-- A message that is compressed makes bytes. -/
theorem compressAll_ne_nil (hK : K.Thorough) {c : K.Sender} {messages : List MessageData}
    (hc : K.Ready c) (hmessages : ∀ m ∈ messages, framer.IsFrame m) (hne : messages ≠ []) :
    (K.compressor.compressAll c messages).1 ≠ [] := by
  cases messages with
  | nil => exact absurd rfl hne
  | cons m rest =>
    have hm := hK.compress_ne_nil hc (hmessages m List.mem_cons_self)
    simp [StreamingCompressor.compressAll, hm]

/-- **An event of the writing half**: a message more makes bytes that are still to be
received. -/
theorem Full.write (hK : K.Thorough) {e : WriteQueue.Event} (h : s.Full)
    (he : ∀ data, e = .asyncWrite data → framer.IsFrame data) (hsucceeds : e.Succeeds)
    (hs : step K minBufSize s (.write e) = some t) : t.Full := by
  obtain ⟨hinv, hreader⟩ := h.inv.write he hs
  obtain ⟨finished, hflow⟩ := h.flow
  obtain ⟨writer, hwriter, rfl⟩ := Option.map_eq_some_iff.mp hs
  refine ⟨hinv, hflow.step hsucceeds hwriter, h.alive, ?_⟩
  intro hwaiting hreceived
  have hlength : s.received ≤ s.stream.length :=
    Nat.le_trans h.inv.received (WriteQueue.FlowsOrStopped.wire (.inl hflow)).length_le
  obtain ⟨new, hnew⟩ := WriteQueue.begun_step hwriter
  -- the stream is longer than what was received if there is a new message
  have hstream : ({ s with writer } : StreamLink K).stream = s.stream ++
      (K.compressor.compressAll
        (K.compressor.compressAll K.compressor.init s.writer.begun).2 new).1 := by
    rw [stream, ← hnew, StreamingCompressor.compressAll_append]
    rfl
  by_cases hnone : new = []
  · subst hnone
    rw [List.append_nil] at hnew
    rw [stream, ← hnew] at hreceived
    show handed s.reader.calls = writer.begun
    rw [← hnew]
    exact h.starved hwaiting hreceived
  · have hframes : ∀ m ∈ new, framer.IsFrame m := fun m hm =>
      hinv.begun_isFrame m (hnew ▸ List.mem_append_right _ hm)
    have hready := K.ready_compressAll K.ready_init h.inv.begun_isFrame
    have hpos := List.length_pos_iff.mpr (compressAll_ne_nil hK hready hframes hnone)
    rw [hstream, List.length_append] at hreceived
    show handed s.reader.calls = writer.begun
    have hcount : s.received = _ := hreceived
    omega

/-- What has been handed over stays handed over. -/
theorem Hands.handed {fails : Prop} (h : Hands fails s t) :
    handed s.reader.calls <+: handed t.reader.calls := by
  have happend : ∀ calls, t.reader.calls = s.reader.calls ++ calls →
      StreamLink.handed s.reader.calls <+: StreamLink.handed t.reader.calls := by
    intro calls hcalls
    rw [hcalls, StreamLink.handed, StreamLink.handed, List.filterMap_append]
    exact List.prefix_append _ _
  cases h with
  | silent calls => exact happend [] (calls.trans (List.append_nil _).symm)
  | message calls => exact happend _ calls
  | error _ calls => exact happend _ calls

/-- **An event of the reading half** that leaves the read waiting after the last byte: there
was nothing to hand over. -/
theorem Inv.starved (hK : K.Thorough) {e : SocketReader.Event K.Choice} (h : s.Inv)
    (htruthful : s.Truthful e) (hs : step K minBufSize s (.read e) = some t)
    (hwaiting : t.reader.waiting ≠ []) (hreceived : t.received = s.stream.length) :
    handed s.reader.calls = s.writer.begun := by
  obtain ⟨left, hbegun, hreading⟩ := h.reading
  have hleft : ∀ m ∈ left, framer.IsFrame m := fun m hm =>
    h.begun_isFrame m (hbegun ▸ List.mem_append_right _ hm)
  -- what is left to be handed over is nothing
  suffices hnil : left = [] by rw [hbegun, hnil, List.append_nil]
  simp only [step, Option.ite_none_right_eq_some] at hs
  obtain ⟨henabled, hs⟩ := hs
  obtain ⟨reader, hreader, rfl⟩ := Option.map_eq_some_iff.mp hs
  cases e with
  | readError read err => exact htruthful.elim
  | asyncRead around =>
    obtain ⟨⟨hidle, hcalls⟩, -⟩ := henabled
    have hend : s.stream.drop s.received = [] :=
      List.drop_eq_nil_of_le (Nat.le_of_eq hreceived.symm)
    rw [hend] at hreading
    exact hreading.asyncRead_starved hK hleft hidle hcalls hreader hwaiting
  | readBytes read bytes available around =>
    obtain ⟨hbytes, -⟩ := henabled
    obtain ⟨hnext, -⟩ := h.receive hbytes
    have hend : s.stream.drop (s.received + bytes.length) = [] :=
      List.drop_eq_nil_of_le (Nat.le_of_eq hreceived.symm)
    rw [hnext, hend] at hreading
    refine hreading.readBytes_starved hK hleft ?_ hreader hwaiting
    intro n hn
    by_contra hne
    -- there would be bytes on the socket still
    have hmore := htruthful n hn (Nat.pos_of_ne_zero hne)
    obtain ⟨finished, hstate⟩ := h.writer
    have hwire := hstate.wire.length_le
    have hall : s.received + bytes.length = s.stream.length := hreceived
    rw [stream] at hall
    omega

/-- **An event of the reading half.** -/
theorem Full.read (hK : K.Thorough) {e : SocketReader.Event K.Choice} (h : s.Full)
    (he : s.Undisturbed minBufSize (.read e)) (hs : step K minBufSize s (.read e) = some t) :
    t.Full := by
  obtain ⟨hinv, hwriter, hhands⟩ := h.inv.read hs
  obtain ⟨htruthful, halive⟩ := he
  refine ⟨hinv, hwriter ▸ h.flow, halive t hs, ?_⟩
  intro hwaiting hreceived
  have hstream : t.stream = s.stream := by rw [stream, stream, hwriter]
  have hbefore := h.inv.starved hK htruthful hs hwaiting (hstream ▸ hreceived)
  -- between `begun` and `begun`
  obtain ⟨left, hbegun, -⟩ := hinv.reading
  have hstart := hhands.handed
  rw [hbefore, ← hwriter] at hstart
  exact (hstart.eq_of_length_le (by rw [hbegun]; simp)).symm

/-- **Everything has been handed over** when the connection is settled. -/
theorem Full.settled (h : s.Full) (hs : s.Settled) :
    handed s.reader.calls = s.writer.ran.map Prod.snd := by
  obtain ⟨finished, hflow⟩ := h.flow
  have hset := hflow.settled hs.queue
  have hran : s.writer.ran.map Prod.snd = s.writer.begun := by
    rw [WriteQueue.map_ran hflow.ran, hs.queue, List.drop_nil, List.map_nil, List.append_nil]
  have hwire : s.writer.wire = s.stream := by
    rw [stream, WriteQueue.begun_eq hflow.ran, hs.queue, List.take_nil, List.append_nil,
      ← hset.stream]
  rw [hran]
  exact h.starved hs.waiting (hs.received.trans (congrArg List.length hwire))

/-! ## Whole runs -/

theorem full_of_run (hK : K.Thorough) {es : List (Event K)}
    (hframes : ∀ m ∈ writes es, framer.IsFrame m)
    (hfair : (machine K minBufSize).EachStep (Undisturbed minBufSize)
      (machine K minBufSize).init es)
    (hs : (machine K minBufSize).run (machine K minBufSize).init es = some s) : s.Full := by
  have hok : ∀ e ∈ es, ∀ data, e = .write (.asyncWrite data) → framer.IsFrame data := by
    rintro e he data rfl
    exact hframes data (mem_writes.mpr he)
  refine Machine.run_invariant_of_eachStep (I := Full) ?_
    (hfair.and ((Machine.eachStep_iff_forall hs).mpr hok)) (full_init K minBufSize) hs
  rintro s e t h ⟨hfair, hok⟩ ht
  have hstep : step K minBufSize s e = some t := ht
  cases e with
  | write e => exact h.write hK (fun data hdata => hok data (hdata ▸ rfl)) hfair hstep
  | read e => exact h.read hK hfair hstep

/-- Two messages are written one after the other, and read with one byte missing at first. -/
def slowReader : List (Event (plainCodec fun _ => 0)) :=
  [.write (.asyncWrite [0xcc, 0x80]), .write (.asyncWrite [0xc3]), .write (.runTask 0),
    .write (.runTask 0), .read (.asyncRead ⟨none, none, some 0, none⟩), .write (.transfer 0 2),
    .read (.readBytes 1 [0xcc] (some 0) ⟨none, none, some 0, none⟩),
    .write (.writeDone 0 .success), .write (.transfer 0 1), .write (.writeDone 0 .success),
    .read (.readBytes 1 [0x80] (some 1) ⟨none, none, some 0, none⟩),
    .read (.readBytes 1 [0xc3] (some 0) ⟨none, none, some 0, none⟩),
    .read (.asyncRead ⟨none, none, some 0, none⟩), .read (.asyncRead ⟨none, none, some 0, none⟩)]

/-- Everything that is written and not handed over is in `held`, and nothing else is. -/
structure HoldsAll (s : StreamLink K) (held : Multiset MessageData) : Prop where
  full : s.Full
  messages : ((s.writer.posted ++ s.writer.ran).map Prod.snd : Multiset MessageData) =
    held + (handed s.reader.calls : Multiset MessageData)

/-- **A settled connection is empty.** -/
theorem HoldsAll.settled {held : Multiset MessageData} (h : s.HoldsAll held) (hs : s.Settled) :
    held = 0 := by
  have hmessages := h.messages
  rw [hs.posted, List.nil_append, ← h.full.settled hs] at hmessages
  exact right_eq_add.mp hmessages

/-- A message is put in. -/
theorem HoldsAll.put (hK : K.Thorough) {held : Multiset MessageData} {data : MessageData}
    (h : s.HoldsAll held) (hdata : framer.IsFrame data)
    (hs : (relay K minBufSize).put s data = some t) : t.HoldsAll (data ::ₘ held) := by
  have hstep : step K minBufSize s (.write (.asyncWrite data)) = some t := hs
  have hsucceeds : (WriteQueue.Event.asyncWrite data).Succeeds := trivial
  have hfull := h.full.write hK (by rintro _ ⟨⟩; exact hdata) hsucceeds hstep
  cases hs
  refine ⟨hfull, ?_⟩
  rw [Multiset.cons_add, ← h.messages]
  exact coe_posted_append s.writer.posted s.writer.ran (s.writer.calls, data)

/-- **What an undisturbed move does** to the messages inside: it hands over one of them, or
none. -/
theorem HoldsAll.step (hK : K.Thorough) {held : Multiset MessageData} {e : Event K}
    {out : Option ReadCall} (h : s.HoldsAll held) (he : s.Undisturbed minBufSize e)
    (hs : (relay K minBufSize).step s e = some (t, out)) :
    out = none ∧ t.HoldsAll held ∨
      ∃ m rest, out = some (.message m) ∧ held = m ::ₘ rest ∧ t.HoldsAll rest := by
  obtain ⟨hmove, hstep, rfl⟩ := relay_step hs
  cases e with
  | write e =>
    have hfull := h.full.write hK (fun data hdata => absurd (hdata ▸ rfl) (hmove data)) he hstep
    obtain ⟨writer, hwriter, rfl⟩ := Option.map_eq_some_iff.mp hstep
    have hsame := coe_write (fun data hdata => hmove data (hdata ▸ rfl)) hwriter
    exact .inl ⟨given_of_append (List.append_nil _).symm, hfull, hsame ▸ h.messages⟩
  | read e =>
    have hfull := h.full.read hK he hstep
    obtain ⟨-, hwriter, hhands⟩ := h.full.inv.read hstep
    have hholds : s.Holds held := ⟨h.full.inv, le_of_eq h.messages⟩
    cases hhands with
    | silent calls =>
      refine .inl ⟨given_of_append (calls.trans (List.append_nil _).symm), hfull, ?_⟩
      rw [hwriter, calls]
      exact h.messages
    | @message read m calls next =>
      obtain ⟨rest, rfl, -⟩ := hholds.hands hfull.inv hwriter calls next
      refine .inr ⟨m, rest, given_of_append calls, rfl, hfull, ?_⟩
      have hmessages := h.messages
      rw [hwriter, calls, handed, List.filterMap_append]
      show _ = rest + ((handed s.reader.calls ++ [m] : List MessageData) : Multiset MessageData)
      rw [hmessages, ← Multiset.coe_add, Multiset.coe_singleton, ← Multiset.singleton_add]
      abel
    | error hfails _ _ =>
      cases e with
      | asyncRead _ => exact hfails.elim
      | readBytes _ _ _ _ => exact hfails.elim
      | readError _ _ => exact he.1.elim

/-- **The tally of a connection** on which nothing fails. -/
def tally (hK : K.Thorough) (minBufSize : Nat) :
    (relay K minBufSize).Tally framer.IsFrame (Undisturbed minBufSize)
      (fun m call => call = .message m) Settled where
  Holds := HoldsAll
  init := ⟨full_init K minBufSize, by simp [relay, machine, handed]⟩
  put := by
    intro s t held data h hok hs
    exact h.put hK (hok data (Multiset.mem_cons_self data held)) hs
  silent := by
    intro s t held e h _ he hs
    rcases h.step hK he hs with ⟨-, ht⟩ | ⟨m, rest, hout, -⟩
    · exact ht
    · cases hout
  gives := by
    intro s t held e call h _ he hs
    rcases h.step hK he hs with ⟨hout, -⟩ | ⟨m, rest, hout, hheld, hrest⟩
    · cases hout
    · exact .inl ⟨m, rest, hheld, Option.some.inj hout, hrest⟩
  settled h hs := h.settled hs

end MpRpc.Transport.StreamLink
